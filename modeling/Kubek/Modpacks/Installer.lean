/-
  Kubek.Modpacks.Installer

  `ModpackInstaller.apply` of `modules/modpacks/modpack-installer.service.ts`, as far as it
  touches the disk: the files of the index are downloaded side by side, then the archive's two
  override layers are unpacked, then the panel's lines are put back into `server.properties`.

  The folder that comes out is `Layered`: each path holds what the last layer that has it
  says, and `server.properties` keeps the panel's keys. This holds for packs that are
  `Separable` (`layered_of_applied`). An index that ships `server.properties` itself is not,
  since the settings to keep are read when its files are there already
  (`index_moves_server`).
-/

import Kubek.Lib.Machine
import Kubek.Lib.TreeEdits
import Kubek.Lib.Utf8
import Kubek.Modpacks.Reader
import Kubek.Properties.Restore

namespace Kubek.Modpacks

open FileTree
open FileTree.Folder (fileAt_writeFile fileAt_removeFile sameOutside_writeFile
  sameOutside_removeFile)
open Transition
open Fallible

abbrev Bytes := List UInt8

/-- `server.properties`. -/
def PROPERTIES : Path := ["server.properties"]

/-- The text of a file, read as UTF-8. -/
def textOf (bytes : Bytes) : Properties.Text := Utf8.units (Utf8.decode bytes)

/-! ## The downloads -/

/-- `dest.part`. -/
def partOf (dest : Path) : Path := dest.dropLast ++ [dest.getLastD "" ++ ".part"]

/-- How far the download of one file is. -/
inductive Phase
  | waiting
  | writing (received : Bytes)
  | landed
  deriving DecidableEq, Repr

structure Downloads where
  disk : Folder Bytes
  phase : Nat → Phase

inductive DownloadEvent
  /-- The folder is made and the part file opened. -/
  | opens (i : Nat)
  | receives (i : Nat) (chunk : Bytes)
  /-- Every byte is there and the hashes match: the part file is renamed. -/
  | lands (i : Nat)
  /-- The try is over, the part file is removed. -/
  | fails (i : Nat)
  deriving DecidableEq, Repr

section Downloading

variable (dir : Path) (files : List MrpackFile) (verified : MrpackFile → Bytes)

/-- The file of an index and its place. -/
def destOf (i : Nat) : Option (MrpackFile × Path) :=
  match files[i]? with
  | none => none
  | some file =>
      match jailPath dir file.path with
      | .error _ => none
      | .ok dest => some (file, dest)

def Downloads.set (s : Downloads) (disk : Folder Bytes) (i : Nat) (phase : Phase) : Downloads where
  disk := disk
  phase := Function.update s.phase i phase

/-- `fs.rename(part, dest)`. -/
def renamePart (disk : Folder Bytes) (dest : Path) : Option (Folder Bytes) :=
  match disk.fileAt (partOf dest) with
  | none => none
  | some content => (disk.removeFile (partOf dest)).writeFile content dest

def Downloads.step (s : Downloads) : DownloadEvent → Option Downloads
  | .opens i =>
      match destOf dir files i, s.phase i with
      | some (_, dest), .waiting =>
          (s.disk.writeFile [] (partOf dest)).map fun disk => s.set disk i (.writing [])
      | _, _ => none
  | .receives i chunk =>
      match destOf dir files i, s.phase i with
      | some (_, dest), .writing received =>
          (s.disk.writeFile (received ++ chunk) (partOf dest)).map fun disk =>
            s.set disk i (.writing (received ++ chunk))
      | _, _ => none
  | .lands i =>
      match destOf dir files i, s.phase i with
      | some (file, dest), .writing received =>
          if received = verified file then
            (renamePart s.disk dest).map fun disk => s.set disk i .landed
          else none
      | _, _ => none
  | .fails i =>
      match destOf dir files i, s.phase i with
      | some _, .landed => none
      | some (_, dest), _ => some (s.set (s.disk.removeFile (partOf dest)) i .waiting)
      | none, _ => none

/-- The downloads of an index, in any order and any of them at a time: the four lanes of the
    pool are some of these runs. -/
def downloads (disk : Folder Bytes) : Machine Downloads DownloadEvent where
  init s := s = ⟨disk, fun _ => .waiting⟩
  step := Downloads.step dir files verified

/-- Every worker has come back. -/
def Downloads.Finished (s : Downloads) : Prop := ∀ i, i < files.length → s.phase i = .landed

end Downloading

/-! ## The overrides -/

/-- An entry of the archive as the zip library yields it. -/
structure ArchiveEntry where
  name : String
  isFile : Bool
  content : Bytes

inductive InstallError
  | pack (error : MrpackError)
  /-- The system refused a read or a write. -/
  | disk
  deriving DecidableEq, Repr

def MAX_OVERRIDE_BYTES : Nat := 8 * 1024 * 1024 * 1024

/-- What an entry of the archive overrides. -/
def overrideOf (entry : ArchiveEntry) : Except MrpackError (Option OverrideEntry) :=
  if entry.isFile then overrideEntry entry.name else pure none

def writeTo (disk : Folder Bytes) (content : Bytes) (target : Path) :
    Except InstallError (Folder Bytes) :=
  match disk.writeFile content target with
  | none => throw .disk
  | some disk => pure disk

/-- `extractOverrideLayer` from one entry on; `bytes` are written already. -/
def extractOverrideLayer (dir : Path) (layer : OverrideLayer) (bytes : Nat) (disk : Folder Bytes) :
    List ArchiveEntry → Except InstallError (Folder Bytes)
  | [] => pure disk
  | entry :: archive => do
      let found ← (overrideOf entry).mapError .pack
      match found with
      | none => extractOverrideLayer dir layer bytes disk archive
      | some o =>
          if o.layer ≠ layer then extractOverrideLayer dir layer bytes disk archive
          else do
            let target ← (jailPath dir o.path).mapError .pack
            if bytes + entry.content.length > MAX_OVERRIDE_BYTES then
              throw (.pack ⟨.INVALID, "Overrides are too large"⟩)
            else do
              let next ← writeTo disk entry.content target
              extractOverrideLayer dir layer (bytes + entry.content.length) next archive

/-- The settings file, if there is one. -/
def readProperties (dir : Path) (disk : Folder Bytes) :
    Except InstallError (Option Properties.Text) :=
  match disk.lookup (dir ++ PROPERTIES) with
  | none => pure none
  | some (.file bytes) => pure (some (textOf bytes))
  | some (.folder _) => throw .disk

/-- The panel's lines put back, where the file has changed. -/
def restoreSettings (dir : Path) (original : Option Properties.Text) (disk : Folder Bytes) :
    Except InstallError (Folder Bytes) :=
  match original with
  | none => pure disk
  | some original => do
      let current ← readProperties dir disk
      match current with
      | none => pure disk
      | some current =>
          if current = original then pure disk
          else writeTo disk (Utf8.encode (Properties.restorePanelProperties current original
            Properties.PANEL_PROPERTY_KEYS)) (dir ++ PROPERTIES)

def applyOverrides (dir : Path) (archive : List ArchiveEntry) (disk : Folder Bytes) :
    Except InstallError (Folder Bytes) := do
  let original ← readProperties dir disk
  let disk ← extractOverrideLayer dir .overrides 0 disk archive
  let disk ← extractOverrideLayer dir .serverOverrides 0 disk archive
  restoreSettings dir original disk

/-- `apply` succeeds and leaves this disk; what comes behind the overrides only reads files. -/
def Applied (dir : Path) (files : List MrpackFile) (verified : MrpackFile → Bytes)
    (archive : List ArchiveEntry) (disk disk' : Folder Bytes) : Prop :=
  ∃ s, (downloads dir files verified disk).Reachable s ∧ s.Finished files ∧
    applyOverrides dir archive s.disk = .ok disk'

/-! ## The layered folder -/

section Layers

variable (dir : Path) (files : List MrpackFile) (verified : MrpackFile → Bytes)
  (archive : List ArchiveEntry) (disk : Folder Bytes)

/-- The entry is the layer's file for this path. -/
def covers (layer : OverrideLayer) (r : Path) (entry : ArchiveEntry) : Bool :=
  match overrideOf entry with
  | .ok (some o) => o.layer = layer && targetOf o.path == r
  | _ => false

/-- The content that a layer of the archive has for a path: its last entry. -/
def layerFile (layer : OverrideLayer) (r : Path) : Option Bytes :=
  ((archive.filter (covers layer r)).getLast?).map ArchiveEntry.content

/-- The content that the index has for a path. -/
def indexFile (r : Path) : Option Bytes :=
  (files.find? fun file => targetOf file.path = r).map verified

/-- The content that the archive has for a path. -/
def overridden (r : Path) : Option Bytes :=
  (layerFile archive .serverOverrides r).or (layerFile archive .overrides r)

/-- The content that the pack has for a path. -/
def packed (r : Path) : Option Bytes := (overridden archive r).or (indexFile files verified r)

/-- Read as settings, `result` has the panel's keys of `base` and the other ones of `pack`. -/
def KeepsPanelKeys (base pack result : Properties.Text) : Prop :=
  ∀ key, (key ∈ Properties.PANEL_PROPERTY_KEYS → ∀ value,
      (Properties.parse base).get key = some value →
      (Properties.parse result).get key = some value) ∧
    (key ∉ Properties.PANEL_PROPERTY_KEYS →
      (Properties.parse result).get key = (Properties.parse pack).get key)

/-- What is to become of `server.properties`. -/
def SettingsLayered (base pack result : Option Bytes) : Prop :=
  match pack, base with
  | none, base => result = base
  | some bytes, none => result = some bytes
  | some bytes, some old => ∃ new, result = some new ∧
      KeepsPanelKeys (textOf old) (textOf bytes) (textOf new)

/-- Every path holds the content of the last layer that has it, the settings keep the panel's
    keys, and outside the folder nothing has changed. -/
structure Layered (disk' : Folder Bytes) : Prop where
  paths : ∀ r, r ≠ PROPERTIES →
    disk'.fileAt (dir ++ r) = (packed files verified archive r).or (disk.fileAt (dir ++ r))
  settings : SettingsLayered (disk.fileAt (dir ++ PROPERTIES))
    (packed files verified archive PROPERTIES) (disk'.fileAt (dir ++ PROPERTIES))
  outside : disk.SameOutside dir disk'

/-- The part files are nobody else's, the settings are not the index's, and what an override
    says of them can be put right line by line. -/
structure Separable : Prop where
  parts : ∀ file ∈ files, disk.fileAt (dir ++ partOf (targetOf file.path)) = none ∧
    ∀ other ∈ files, targetOf other.path ≠ partOf (targetOf file.path)
  settings : indexFile files verified PROPERTIES = none ∨
    disk.fileAt (dir ++ PROPERTIES) = none ∧ overridden archive PROPERTIES = none
  restorable : ∀ old bytes, disk.fileAt (dir ++ PROPERTIES) = some old →
    overridden archive PROPERTIES = some bytes → textOf bytes = textOf old ∨
      Properties.Restorable (textOf bytes) (textOf old) Properties.PANEL_PROPERTY_KEYS

end Layers

/-! ## What the downloads leave -/

/-- The part file shows what has been received. -/
def Phase.atPart : Phase → Option Bytes
  | .writing received => some received
  | _ => none

/-- The destination is as it was until the file lands. -/
def Phase.atDest (phase : Phase) (content : Bytes) (before : Option Bytes) : Option Bytes :=
  match phase with
  | .landed => some content
  | _ => before

/-- Paths of an index: safe, and no two the same. -/
structure Indexed (files : List MrpackFile) : Prop where
  safe : ∀ file ∈ files, IsSafe file.path
  nodup : (files.map MrpackFile.path).Nodup

section Downloaded

variable {dir : Path} {files : List MrpackFile} {verified : MrpackFile → Bytes}
  {archive : List ArchiveEntry} {disk disk' : Folder Bytes} {file other : MrpackFile} {i j : Nat}

theorem IsSafe.below {path : String} (h : IsSafe path) : Below (targetOf path) := by
  obtain ⟨raw, h_raw⟩ := h
  rw [safe_target h_raw]
  exact (safe_eq h_raw).2

/-- Files of an index are told apart by where they lead. -/
theorem Indexed.target_ne (h : Indexed files) (h_i : files[i]? = some file)
    (h_j : files[j]? = some other) (h_ne : i ≠ j) : targetOf file.path ≠ targetOf other.path := by
  intro h_eq
  obtain ⟨raw, h_raw⟩ := h.safe file (List.mem_of_getElem? h_i)
  obtain ⟨raw', h_raw'⟩ := h.safe other (List.mem_of_getElem? h_j)
  rw [safe_target h_raw, safe_target h_raw'] at h_eq
  have h_path : file.path = other.path := safe_injective h_raw h_raw' h_eq
  have h_map_i : (files.map MrpackFile.path)[i]? = some file.path := by
    rw [List.getElem?_map, h_i]
    rfl
  have h_map_j : (files.map MrpackFile.path)[j]? = some file.path := by
    rw [List.getElem?_map, h_j, h_path]
    rfl
  obtain ⟨h_lt, -⟩ := List.getElem?_eq_some_iff.mp h_map_i
  exact h_ne ((List.getElem?_inj h_lt h.nodup).mp (h_map_i.trans h_map_j.symm))

theorem partOf_append {t : Path} (h : t ≠ []) : partOf (dir ++ t) = dir ++ partOf t := by
  rw [partOf, partOf, List.dropLast_append_of_ne_nil h, List.append_assoc]
  have h_last : (dir ++ t).getLastD "" = t.getLastD "" := by
    rw [List.getLastD_eq_getLast?, List.getLastD_eq_getLast?, List.getLast?_append_of_ne_nil _ h]
  rw [h_last]

theorem partOf_injective {t t' : Path} (h : t ≠ []) (h' : t' ≠ []) (h_eq : partOf t = partOf t') :
    t = t' := by
  obtain ⟨init, last, rfl⟩ := (List.eq_nil_or_concat' t).resolve_left h
  obtain ⟨init', last', rfl⟩ := (List.eq_nil_or_concat' t').resolve_left h'
  simp only [partOf, List.dropLast_concat, List.getLastD_concat] at h_eq
  obtain ⟨rfl, h_last⟩ := List.append_inj' h_eq rfl
  have h_text : last ++ ".part" = last' ++ ".part" := List.head_eq_of_cons_eq h_last
  rw [(String.append_left_inj ".part").mp h_text]

/-- What the disk shows while files are on their way. -/
structure Progress (dir : Path) (files : List MrpackFile) (verified : MrpackFile → Bytes)
    (disk : Folder Bytes) (s : Downloads) : Prop where
  dest : ∀ i file, files[i]? = some file → s.disk.fileAt (dir ++ targetOf file.path) =
    (s.phase i).atDest (verified file) (disk.fileAt (dir ++ targetOf file.path))
  part : ∀ i file, files[i]? = some file →
    s.disk.fileAt (dir ++ partOf (targetOf file.path)) = (s.phase i).atPart
  rest : ∀ r, (∀ file ∈ files, r ≠ targetOf file.path ∧ r ≠ partOf (targetOf file.path)) →
    s.disk.fileAt (dir ++ r) = disk.fileAt (dir ++ r)
  outside : disk.SameOutside dir s.disk

/-- Only the two paths of one file change, to what its new phase shows. -/
theorem Progress.edit {s : Downloads} {phase : Phase} (h : Progress dir files verified disk s)
    (h_files : Indexed files) (h_sep : Separable dir files verified archive disk)
    (h_i : files[i]? = some file)
    (h_frame : ∀ r, r ≠ targetOf file.path → r ≠ partOf (targetOf file.path) →
      disk'.fileAt (dir ++ r) = s.disk.fileAt (dir ++ r))
    (h_dest : disk'.fileAt (dir ++ targetOf file.path) =
      phase.atDest (verified file) (disk.fileAt (dir ++ targetOf file.path)))
    (h_part : disk'.fileAt (dir ++ partOf (targetOf file.path)) = phase.atPart)
    (h_out : s.disk.SameOutside dir disk') :
    Progress dir files verified disk (s.set disk' i phase) := by
  have h_mem : file ∈ files := List.mem_of_getElem? h_i
  have h_ne : ∀ {j other}, files[j]? = some other → j ≠ i →
      targetOf other.path ≠ targetOf file.path ∧
        targetOf other.path ≠ partOf (targetOf file.path) ∧
        partOf (targetOf other.path) ≠ targetOf file.path ∧
        partOf (targetOf other.path) ≠ partOf (targetOf file.path) := by
    intro j other h_j h_ji
    have h_other : other ∈ files := List.mem_of_getElem? h_j
    have h_target := h_files.target_ne h_j h_i h_ji
    refine ⟨h_target, (h_sep.parts file h_mem).2 other h_other,
      ((h_sep.parts other h_other).2 file h_mem).symm, fun h_eq => h_target ?_⟩
    exact partOf_injective (h_files.safe other h_other).below.nonempty
      (h_files.safe file h_mem).below.nonempty h_eq
  refine ⟨fun j other h_j => ?_, fun j other h_j => ?_, fun r h_r => ?_, h.outside.trans h_out⟩
  · by_cases h_ji : j = i
    · subst h_ji
      obtain rfl := Option.some.inj (h_i.symm.trans h_j)
      simpa only [Downloads.set, Function.update_self] using h_dest
    · obtain ⟨h_tt, h_tp, -, -⟩ := h_ne h_j h_ji
      simp only [Downloads.set, Function.update_of_ne h_ji]
      rw [h_frame _ h_tt h_tp]
      exact h.dest j other h_j
  · by_cases h_ji : j = i
    · subst h_ji
      obtain rfl := Option.some.inj (h_i.symm.trans h_j)
      simpa only [Downloads.set, Function.update_self] using h_part
    · obtain ⟨-, -, h_pt, h_pp⟩ := h_ne h_j h_ji
      simp only [Downloads.set, Function.update_of_ne h_ji]
      rw [h_frame _ h_pt h_pp]
      exact h.part j other h_j
  · exact (h_frame r (h_r file h_mem).1 (h_r file h_mem).2).trans (h.rest r h_r)

theorem destOf_eq_some {dest : Path} (h : destOf dir files i = some (file, dest)) :
    files[i]? = some file ∧ dest = dir ++ targetOf file.path ∧
      partOf dest = dir ++ partOf (targetOf file.path) := by
  rw [destOf] at h
  split at h
  · cases h
  · rename_i file' h_file
    split at h
    · cases h
    · rename_i dest' h_dest
      cases h
      obtain ⟨rfl, h_below⟩ := jailPath_eq h_dest
      exact ⟨h_file, rfl, partOf_append h_below.nonempty⟩

/-- What a step may do to the disk for the file at an index, and the file's new phase. -/
inductive Edit (dir : Path) (verified : MrpackFile → Bytes) (s : Downloads) (i : Nat)
    (file : MrpackFile) : Folder Bytes → Phase → Prop
  | writes {bytes : Bytes} {disk' : Folder Bytes} (h_open : s.phase i ≠ .landed)
      (h : s.disk.writeFile bytes (dir ++ partOf (targetOf file.path)) = some disk') :
      Edit dir verified s i file disk' (.writing bytes)
  | renames {disk' : Folder Bytes} (h_full : s.phase i = .writing (verified file))
      (h : renamePart s.disk (dir ++ targetOf file.path) = some disk') :
      Edit dir verified s i file disk' .landed
  | removes (h_open : s.phase i ≠ .landed) :
      Edit dir verified s i file (s.disk.removeFile (dir ++ partOf (targetOf file.path))) .waiting

theorem step_cases {s s' : Downloads} {e : DownloadEvent}
    (h : Downloads.step dir files verified s e = some s') :
    ∃ i file disk' phase, files[i]? = some file ∧ Edit dir verified s i file disk' phase ∧
      s' = s.set disk' i phase := by
  cases e with
  | opens i =>
    simp only [Downloads.step] at h
    split at h
    · rename_i file dest h_dest h_phase
      obtain ⟨h_file, rfl, h_part⟩ := destOf_eq_some h_dest
      obtain ⟨disk', h_write, rfl⟩ := Option.map_eq_some_iff.mp h
      rw [h_part] at h_write
      exact ⟨i, file, disk', _, h_file, .writes (by rw [h_phase]; simp) h_write, rfl⟩
    · cases h
  | receives i chunk =>
    simp only [Downloads.step] at h
    split at h
    · rename_i file dest received h_dest h_phase
      obtain ⟨h_file, rfl, h_part⟩ := destOf_eq_some h_dest
      obtain ⟨disk', h_write, rfl⟩ := Option.map_eq_some_iff.mp h
      rw [h_part] at h_write
      exact ⟨i, file, disk', _, h_file, .writes (by rw [h_phase]; simp) h_write, rfl⟩
    · cases h
  | lands i =>
    simp only [Downloads.step] at h
    split at h
    · rename_i file dest received h_dest h_phase
      obtain ⟨h_file, rfl, -⟩ := destOf_eq_some h_dest
      split at h
      · rename_i h_verified
        obtain ⟨disk', h_rename, rfl⟩ := Option.map_eq_some_iff.mp h
        exact ⟨i, file, disk', _, h_file, .renames (by rw [h_phase, h_verified]) h_rename, rfl⟩
      · cases h
    · cases h
  | fails i =>
    simp only [Downloads.step] at h
    split at h
    · cases h
    · rename_i file dest h_dest h_open
      obtain ⟨h_file, rfl, h_part⟩ := destOf_eq_some h_dest
      cases h
      rw [h_part]
      exact ⟨i, file, _, _, h_file, .removes h_open, rfl⟩
    · cases h

theorem ne_append {r t : Path} (h : r ≠ t) : dir ++ r ≠ dir ++ t :=
  fun h_eq => h (List.append_cancel_left h_eq)

/-- One step of one download. -/
theorem Progress.step {s s' : Downloads} {e : DownloadEvent}
    (h : Progress dir files verified disk s) (h_files : Indexed files)
    (h_sep : Separable dir files verified archive disk)
    (h_step : Downloads.step dir files verified s e = some s') :
    Progress dir files verified disk s' := by
  obtain ⟨i, file, disk', phase, h_i, h_edit, rfl⟩ := step_cases h_step
  have h_mem : file ∈ files := List.mem_of_getElem? h_i
  have h_apart : targetOf file.path ≠ partOf (targetOf file.path) :=
    (h_sep.parts file h_mem).2 file h_mem
  -- a file that is not there yet shows what was there before
  have h_before : s.phase i ≠ .landed → s.disk.fileAt (dir ++ targetOf file.path) =
      disk.fileAt (dir ++ targetOf file.path) := by
    intro h_open
    rw [h.dest i file h_i]
    cases h_phase : s.phase i with
    | waiting => rfl
    | writing received => rfl
    | landed => exact absurd h_phase h_open
  cases h_edit with
  | writes h_open h_write =>
    have h_at := fun q => fileAt_writeFile (q := q) h_write
    refine h.edit h_files h_sep h_i (fun r _ h_r => ?_) ?_ ?_
      (sameOutside_writeFile h.outside.dir h_write)
    · rw [h_at, if_neg (ne_append h_r)]
    · rw [h_at, if_neg (ne_append h_apart), h_before h_open]
      rfl
    · rw [h_at, if_pos rfl]
      rfl
  | renames h_full h_rename =>
    have h_part := h.part i file h_i
    rw [h_full] at h_part
    have h_path : partOf (dir ++ targetOf file.path) = dir ++ partOf (targetOf file.path) :=
      partOf_append (h_files.safe file h_mem).below.nonempty
    rw [renamePart, h_path, h_part] at h_rename
    have h_at : ∀ q, disk'.fileAt q = if q = dir ++ targetOf file.path then some (verified file)
        else if q = dir ++ partOf (targetOf file.path) then none else s.disk.fileAt q := by
      intro q
      rw [fileAt_writeFile h_rename, fileAt_removeFile]
    have h_gone := sameOutside_removeFile h.outside.dir (partOf (targetOf file.path))
    refine h.edit h_files h_sep h_i (fun r h_r h_r' => ?_) ?_ ?_
      (h_gone.trans (sameOutside_writeFile h_gone.dir h_rename))
    · rw [h_at, if_neg (ne_append h_r), if_neg (ne_append h_r')]
    · rw [h_at, if_pos rfl]
      rfl
    · rw [h_at, if_neg (ne_append h_apart.symm), if_pos rfl]
      rfl
  | removes h_open =>
    refine h.edit h_files h_sep h_i (fun r _ h_r => ?_) ?_ ?_
      (sameOutside_removeFile h.outside.dir _)
    · rw [fileAt_removeFile, if_neg (ne_append h_r)]
    · rw [fileAt_removeFile, if_neg (ne_append h_apart), h_before h_open]
      rfl
    · rw [fileAt_removeFile, if_pos rfl]
      rfl

theorem progress_init (h_dir : disk.isFolder dir = true)
    (h_sep : Separable dir files verified archive disk) :
    Progress dir files verified disk ⟨disk, fun _ => .waiting⟩ where
  dest _ _ _ := rfl
  part _ file h_i := (h_sep.parts file (List.mem_of_getElem? h_i)).1
  rest _ _ := rfl
  outside := .refl h_dir

/-- When every download has come back the index lies over the folder as it was. -/
theorem Progress.finished {s : Downloads} (h : Progress dir files verified disk s)
    (h_sep : Separable dir files verified archive disk) (h_done : s.Finished files) (r : Path) :
    s.disk.fileAt (dir ++ r) = (indexFile files verified r).or (disk.fileAt (dir ++ r)) := by
  rw [indexFile]
  cases h_find : files.find? fun file => targetOf file.path = r with
  | some file =>
    have h_r : targetOf file.path = r := by simpa using List.find?_some h_find
    obtain ⟨i, h_lt, h_i⟩ := List.mem_iff_getElem.mp (List.mem_of_find?_eq_some h_find)
    have h_dest := h.dest i file (List.getElem?_eq_some_iff.mpr ⟨h_lt, h_i⟩)
    rw [h_done i h_lt, h_r] at h_dest
    exact h_dest
  | none =>
    have h_target : ∀ file ∈ files, r ≠ targetOf file.path := by
      intro file h_file h_eq
      have h_not := List.find?_eq_none.mp h_find file h_file
      exact h_not (by simpa using h_eq.symm)
    show s.disk.fileAt (dir ++ r) = disk.fileAt (dir ++ r)
    by_cases h_part : ∃ file ∈ files, r = partOf (targetOf file.path)
    · -- the part file is gone again, and there was none before
      obtain ⟨file, h_file, rfl⟩ := h_part
      obtain ⟨i, h_lt, h_i⟩ := List.mem_iff_getElem.mp h_file
      rw [h.part i file (List.getElem?_eq_some_iff.mpr ⟨h_lt, h_i⟩), h_done i h_lt,
        (h_sep.parts file h_file).1]
      rfl
    · apply h.rest
      intro file h_file
      exact ⟨h_target file h_file, fun h_eq => h_part ⟨file, h_file, h_eq⟩⟩

end Downloaded

/-! ## What the overrides leave -/

section Overridden

variable {dir : Path} {layer : OverrideLayer} {archive : List ArchiveEntry}
  {disk disk' : Folder Bytes} {r : Path}

theorem layerFile_cons (entry : ArchiveEntry) (archive : List ArchiveEntry) (layer : OverrideLayer)
    (r : Path) :
    layerFile (entry :: archive) layer r = (layerFile archive layer r).or
      (if covers layer r entry then some entry.content else none) := by
  rw [layerFile, layerFile, List.filter_cons]
  split
  · rw [List.getLast?_cons]
    cases (archive.filter (covers layer r)).getLast? <;> rfl
  · rw [Option.or_none]

theorem writeTo_eq_ok {content : Bytes} {target : Path}
    (h : writeTo disk content target = .ok disk') : disk.writeFile content target = some disk' := by
  rw [writeTo] at h
  split at h
  · cases h
  · rename_i disk'' h_write
    cases pure_eq_ok.mp h
    exact h_write

/-- A layer lies over what was there: at each path its last entry for it. -/
theorem fileAt_extractOverrideLayer {bytes : Nat} (h_dir : disk.isFolder dir = true)
    (h : extractOverrideLayer dir layer bytes disk archive = .ok disk') :
    disk.SameOutside dir disk' ∧
      ∀ r, disk'.fileAt (dir ++ r) = (layerFile archive layer r).or (disk.fileAt (dir ++ r)) := by
  induction archive generalizing bytes disk with
  | nil =>
    cases pure_eq_ok.mp h
    exact ⟨.refl h_dir, fun _ => rfl⟩
  | cons entry archive ih =>
    obtain ⟨found, h_found, h⟩ := bind_eq_ok.mp h
    have h_entry : overrideOf entry = .ok found := mapError_eq_ok.mp h_found
    -- an entry that is none of the layer's changes nothing
    have h_skip : (∀ r, covers layer r entry = false) →
        extractOverrideLayer dir layer bytes disk archive = .ok disk' →
        disk.SameOutside dir disk' ∧ ∀ r, disk'.fileAt (dir ++ r) =
          (layerFile (entry :: archive) layer r).or (disk.fileAt (dir ++ r)) := by
      intro h_covers h_rest
      obtain ⟨h_out, h_at⟩ := ih h_dir h_rest
      refine ⟨h_out, fun r => ?_⟩
      rw [h_at, layerFile_cons, h_covers, if_neg Bool.false_ne_true, Option.or_none]
    cases found with
    | none =>
      apply h_skip _ h
      intro r
      rw [covers, h_entry]
    | some o =>
      dsimp only at h
      by_cases h_layer : o.layer = layer
      · rw [if_neg (not_not.mpr h_layer)] at h
        obtain ⟨target, h_target, h⟩ := bind_eq_ok.mp h
        obtain ⟨-, h⟩ := throw_else_eq_ok.mp h
        obtain ⟨next, h_next, h_rest⟩ := bind_eq_ok.mp h
        obtain ⟨rfl, -⟩ := jailPath_eq (mapError_eq_ok.mp h_target)
        have h_write := writeTo_eq_ok h_next
        have h_out := sameOutside_writeFile h_dir h_write
        obtain ⟨h_out', h_at⟩ := ih h_out.dir h_rest
        refine ⟨h_out.trans h_out', fun r => ?_⟩
        have h_covers : covers layer r entry = (targetOf o.path == r) := by
          rw [covers, h_entry]
          simp only [h_layer, decide_true, Bool.true_and]
        rw [h_at, layerFile_cons, h_covers, fileAt_writeFile h_write, Option.or_assoc]
        by_cases h_r : targetOf o.path = r
        · rw [if_pos (by rw [h_r]), if_pos (beq_iff_eq.mpr h_r)]
          rfl
        · rw [if_neg (ne_append (Ne.symm h_r)), if_neg (by simpa using h_r)]
          rfl
      · rw [if_pos h_layer] at h
        apply h_skip _ h
        intro r
        rw [covers, h_entry]
        simp only [h_layer, decide_false, Bool.false_and]

end Overridden

/-! ## Restored texts can be written -/

section WellFormed

open Kubek.Properties
open Utf8 (WellFormed IsWhole)

variable {text overridden original : Text} {keys : List Text}

theorem isWhole_of_isTrimmed {c : CodeUnit} (h : isTrimmed c = true) : IsWhole c := by
  simp only [isTrimmed, Bool.or_eq_true, Bool.and_eq_true, decide_eq_true_eq, beq_iff_eq] at h
  rw [IsWhole]
  omega

/-- A unit that ends no line comes in front of the first one. -/
theorem splitLf_cons {c : CodeUnit} (h_lf : c ≠ LF) (h_cr : c ≠ CR) (text : Text) :
    ∃ line rest, splitLf text = line :: rest ∧ splitLf (c :: text) = (c :: line) :: rest := by
  rw [splitLf, if_neg h_lf, if_neg fun h => h_cr h.1]
  cases h : splitLf text with
  | nil => exact absurd h (splitLf_ne_nil text)
  | cons line rest => exact ⟨line, rest, rfl, rfl⟩

theorem wellFormed_splitLf (h : WellFormed text) : ∀ line ∈ splitLf text, WellFormed line := by
  obtain ⟨ns, h_ns, rfl⟩ := h
  induction ns with
  | nil =>
    intro line h_line
    rw [List.mem_singleton.mp h_line]
    exact Utf8.wellFormed_nil
  | cons n ns ih =>
    have h_n := h_ns n List.mem_cons_self
    have h_rest := ih fun m h_m => h_ns m (List.mem_cons_of_mem n h_m)
    have h_char : WellFormed (Utf8.utf16 n) :=
      ⟨[n], fun m h_m => by rw [List.mem_singleton.mp h_m]; exact h_n,
        (List.flatMap_singleton _ _).symm⟩
    rw [Utf8.units, List.flatMap_cons]
    obtain ⟨u, h_u, -⟩ | ⟨u, v, h_uv, h_u, h_v⟩ := Utf8.utf16_cases h_n
    · rw [h_u] at h_char ⊢
      show ∀ line ∈ splitLf (u :: Utf8.units ns), WellFormed line
      rw [splitLf]
      split
      · intro line h_line
        obtain rfl | h_line := List.mem_cons.mp h_line
        · exact Utf8.wellFormed_nil
        · exact h_rest line h_line
      · split
        · exact h_rest
        · cases h_split : splitLf (Utf8.units ns) with
          | nil => exact absurd h_split (splitLf_ne_nil _)
          | cons first rest =>
            rw [h_split] at h_rest
            intro line h_line
            obtain rfl | h_line := List.mem_cons.mp h_line
            · exact h_char.append (h_rest first List.mem_cons_self)
            · exact h_rest line (List.mem_cons_of_mem first h_line)
    · -- both halves of a pair go into the same line
      rw [h_uv] at h_char ⊢
      have h_ends : ∀ w, ¬ IsWhole w → w ≠ LF ∧ w ≠ CR := by
        intro w h_w
        constructor
        · rintro rfl
          exact h_w (by rw [IsWhole]; decide)
        · rintro rfl
          exact h_w (by rw [IsWhole]; decide)
      obtain ⟨line, rest, h_split, h_cons⟩ :=
        splitLf_cons (h_ends v h_v).1 (h_ends v h_v).2 (Utf8.units ns)
      obtain ⟨line', rest', h_split', h_cons'⟩ :=
        splitLf_cons (h_ends u h_u).1 (h_ends u h_u).2 (v :: Utf8.units ns)
      rw [h_cons] at h_split'
      obtain ⟨rfl, rfl⟩ := List.cons.inj h_split'
      rw [h_split] at h_rest
      show ∀ line ∈ splitLf (u :: v :: Utf8.units ns), WellFormed line
      rw [h_cons']
      intro l h_l
      obtain rfl | h_l := List.mem_cons.mp h_l
      · exact h_char.append (h_rest line List.mem_cons_self)
      · exact h_rest l (List.mem_cons_of_mem line h_l)

theorem wellFormed_joinWith {lines : List Text} (h : ∀ line ∈ lines, WellFormed line) :
    WellFormed (joinWith [LF] lines) := by
  induction lines with
  | nil => exact Utf8.wellFormed_nil
  | cons line lines ih =>
    cases lines with
    | nil =>
      rw [joinWith, List.intercalate_singleton]
      exact h line List.mem_cons_self
    | cons next rest =>
      rw [joinWith, List.intercalate_cons_cons]
      have h_lf : WellFormed [LF] := Utf8.wellFormed_whole (by rw [IsWhole]; decide)
      exact ((h line List.mem_cons_self).append h_lf).append
        (ih fun l h_l => h l (List.mem_cons_of_mem line h_l))

theorem wellFormed_trim {line : Text} (h : WellFormed line) : WellFormed (trim line) :=
  (h.dropWhile fun _ => isWhole_of_isTrimmed).dropWhile_reverse fun _ => isWhole_of_isTrimmed

/-- The panel's lines are lines of the original. -/
theorem wellFormed_panelLine {key line : Text} (h : WellFormed original)
    (h_line : (originalLines original keys).get key = some line) : WellFormed line := by
  rw [get_originalLines, panelLine] at h_line
  split at h_line
  · obtain ⟨raw, h_raw, rfl⟩ := Option.map_eq_some_iff.mp h_line
    exact wellFormed_trim (wellFormed_splitLf h raw
      (List.mem_reverse.mp (List.mem_of_find?_eq_some h_raw)))
  · cases h_line

/-- Texts without broken pairs are restored to such a text. -/
theorem wellFormed_restorePanelProperties (h : WellFormed overridden) (h' : WellFormed original) :
    WellFormed (restorePanelProperties overridden original keys) := by
  have h_lines : ∀ line ∈ (splitLf overridden).map (restoreLine (originalLines original keys)),
      WellFormed line := by
    intro line h_line
    obtain ⟨raw, h_raw, rfl⟩ := List.mem_map.mp h_line
    rw [restoreLine]
    cases h_panel : (keyOf raw).bind (originalLines original keys).get with
    | none => exact wellFormed_splitLf h raw h_raw
    | some shown =>
      obtain ⟨key, -, h_get⟩ := Option.bind_eq_some_iff.mp h_panel
      exact wellFormed_panelLine h' h_get
  rw [restorePanelProperties]
  split
  · exact wellFormed_joinWith h_lines
  · apply wellFormed_joinWith
    intro line h_line
    obtain h_line | h_line := List.mem_append.mp h_line
    · obtain h_line | h_line := List.mem_append.mp h_line
      · rw [dropBlanks, List.mem_reverse] at h_line
        have h_front := (List.dropWhile_sublist _).subset h_line
        exact h_lines line (List.mem_reverse.mp h_front)
      · obtain ⟨⟨key, shown⟩, h_entry, rfl⟩ := List.mem_map.mp h_line
        exact wellFormed_panelLine h' (mem_missing.mp h_entry).1
    · rw [List.mem_singleton.mp h_line]
      exact Utf8.wellFormed_nil

end WellFormed

/-! ## The installed folder -/

section Applied

variable {dir : Path} {files : List MrpackFile} {verified : MrpackFile → Bytes}
  {archive : List ArchiveEntry} {disk disk' : Folder Bytes} {original : Option Properties.Text}

theorem readProperties_eq_ok (h : readProperties dir disk = .ok original) :
    original = (disk.fileAt (dir ++ PROPERTIES)).map textOf := by
  rw [readProperties] at h
  rw [Folder.fileAt]
  split at h
  · rename_i h_lookup
    rw [h_lookup, ← pure_eq_ok.mp h]
    rfl
  · rename_i bytes h_lookup
    rw [h_lookup, ← pure_eq_ok.mp h]
    rfl
  · cases h

/-- The settings are written once more at most, as the restored text. -/
theorem restoreSettings_cases (h_dir : disk.isFolder dir = true)
    (h : restoreSettings dir original disk = .ok disk') :
    disk.SameOutside dir disk' ∧
      (∀ r, r ≠ PROPERTIES → disk'.fileAt (dir ++ r) = disk.fileAt (dir ++ r)) ∧
      (disk'.fileAt (dir ++ PROPERTIES) = disk.fileAt (dir ++ PROPERTIES) ∧
          (∀ old bytes, original = some old → disk.fileAt (dir ++ PROPERTIES) = some bytes →
            textOf bytes = old) ∨
        ∃ old bytes, original = some old ∧ disk.fileAt (dir ++ PROPERTIES) = some bytes ∧
          textOf bytes ≠ old ∧ disk'.fileAt (dir ++ PROPERTIES) = some (Utf8.encode
            (Properties.restorePanelProperties (textOf bytes) old
              Properties.PANEL_PROPERTY_KEYS))) := by
  cases original with
  | none =>
    cases pure_eq_ok.mp h
    exact ⟨.refl h_dir, fun _ _ => rfl, .inl ⟨rfl, fun old _ h_old => by cases h_old⟩⟩
  | some old =>
    obtain ⟨current, h_current, h_rest⟩ := bind_eq_ok.mp h
    have h_read := readProperties_eq_ok h_current
    cases h_file : disk.fileAt (dir ++ PROPERTIES) with
    | none =>
      rw [h_file] at h_read
      rw [h_read] at h_rest
      cases pure_eq_ok.mp h_rest
      exact ⟨.refl h_dir, fun _ _ => rfl, .inl ⟨h_file, fun _ bytes _ h_some => by cases h_some⟩⟩
    | some bytes =>
      rw [h_file] at h_read
      rw [h_read] at h_rest
      dsimp only [Option.map_some] at h_rest
      split at h_rest
      · rename_i h_same
        cases pure_eq_ok.mp h_rest
        refine ⟨.refl h_dir, fun _ _ => rfl, .inl ⟨h_file, fun old' bytes' h_old h_bytes => ?_⟩⟩
        cases h_old
        cases h_bytes
        exact h_same
      · rename_i h_new
        have h_write := writeTo_eq_ok h_rest
        refine ⟨sameOutside_writeFile h_dir h_write, fun r h_r => ?_,
          .inr ⟨old, bytes, rfl, rfl, h_new, ?_⟩⟩
        · rw [fileAt_writeFile h_write, if_neg (ne_append h_r)]
        · rw [fileAt_writeFile h_write, if_pos rfl]

/-- A text that the reader can put right keeps its panel keys through UTF-8 and back. -/
theorem keeps_restored {old bytes : Bytes} (h : Properties.Restorable (textOf bytes) (textOf old)
      Properties.PANEL_PROPERTY_KEYS) :
    KeepsPanelKeys (textOf old) (textOf bytes) (textOf (Utf8.encode
      (Properties.restorePanelProperties (textOf bytes) (textOf old)
        Properties.PANEL_PROPERTY_KEYS))) := by
  have h_text : textOf (Utf8.encode (Properties.restorePanelProperties (textOf bytes) (textOf old)
      Properties.PANEL_PROPERTY_KEYS)) = Properties.restorePanelProperties (textOf bytes)
        (textOf old) Properties.PANEL_PROPERTY_KEYS :=
    Utf8.units_decode_encode (wellFormed_restorePanelProperties
      (Utf8.wellFormed_decode bytes) (Utf8.wellFormed_decode old))
  rw [h_text]
  intro key
  constructor
  · intro h_key value h_value
    exact Properties.get_restored_panel h h_key h_value
  · intro h_key
    exact Properties.get_restored_other h h_key

theorem keeps_same {old bytes : Bytes} (h : textOf bytes = textOf old) :
    KeepsPanelKeys (textOf old) (textOf bytes) (textOf bytes) := by
  intro key
  rw [h]
  exact ⟨fun _ value h_value => h_value, fun _ => rfl⟩

/-- What becomes of the settings, by what each layer says of them. -/
theorem settingsLayered_of_cases {base pack index final : Option Bytes}
    (h_index : index = none ∨ base = none ∧ pack = none)
    (h_fits : ∀ old bytes, base = some old → pack = some bytes → textOf bytes = textOf old ∨
      Properties.Restorable (textOf bytes) (textOf old) Properties.PANEL_PROPERTY_KEYS)
    (h : final = (pack.or (index.or base)) ∧
        (∀ old bytes, (index.or base).map textOf = some old →
          pack.or (index.or base) = some bytes → textOf bytes = old) ∨
      ∃ old bytes, (index.or base).map textOf = some old ∧
        pack.or (index.or base) = some bytes ∧ textOf bytes ≠ old ∧
        final = some (Utf8.encode (Properties.restorePanelProperties (textOf bytes) old
          Properties.PANEL_PROPERTY_KEYS))) :
    SettingsLayered base (pack.or index) final := by
  cases pack with
  | none =>
    -- the archive is silent: what was read first is what is there now
    have h_final : final = index.or base := by
      obtain ⟨h_final, -⟩ | ⟨old, bytes, h_old, h_bytes, h_ne, -⟩ := h
      · exact h_final
      · rw [Option.none_or] at h_bytes
        rw [h_bytes] at h_old
        exact absurd (Option.some.inj h_old) h_ne
    cases index with
    | none => exact h_final
    | some bytes =>
      obtain h_none | ⟨rfl, -⟩ := h_index
      · cases h_none
      · exact h_final
  | some bytes =>
    obtain rfl : index = none := by
      obtain h_none | ⟨-, h_pack⟩ := h_index
      · exact h_none
      · cases h_pack
    cases base with
    | none =>
      obtain ⟨h_final, -⟩ | ⟨old, _, h_old, -⟩ := h
      · exact h_final
      · cases h_old
    | some old =>
      obtain ⟨h_final, h_same⟩ | ⟨old', bytes', h_old, h_bytes, h_ne, h_final⟩ := h
      · exact ⟨bytes, h_final, keeps_same (h_same (textOf old) bytes rfl rfl)⟩
      · obtain rfl := Option.some.inj h_old
        obtain rfl := Option.some.inj h_bytes
        refine ⟨_, h_final, keeps_restored ?_⟩
        exact (h_fits old bytes rfl rfl).resolve_left h_ne

/-- An accepted index has safe paths. -/
theorem indexed_of_parseIndex {js : JsJson.Numbers} {p : Platform js}
    {raw : JsJson.JsonValue js.Num} {manifest : MrpackManifest}
    (h : parseIndex p raw = .ok manifest)
    (h_paths : (manifest.files.map MrpackFile.path).Nodup) : Indexed manifest.files :=
  ⟨safe_of_parseIndex h, h_paths⟩

/-- The two layers lie over the downloads, the later one on top. -/
theorem applyOverrides_cases (h_dir : disk.isFolder dir = true)
    (h : applyOverrides dir archive disk = .ok disk') :
    ∃ unpacked, disk.SameOutside dir unpacked ∧
      (∀ r, unpacked.fileAt (dir ++ r) = (overridden archive r).or (disk.fileAt (dir ++ r))) ∧
      restoreSettings dir ((disk.fileAt (dir ++ PROPERTIES)).map textOf) unpacked = .ok disk' := by
  obtain ⟨original, h_original, h⟩ := bind_eq_ok.mp h
  obtain ⟨first, h_first, h⟩ := bind_eq_ok.mp h
  obtain ⟨second, h_second, h⟩ := bind_eq_ok.mp h
  obtain ⟨h_out, h_at⟩ := fileAt_extractOverrideLayer h_dir h_first
  obtain ⟨h_out', h_at'⟩ := fileAt_extractOverrideLayer h_out.dir h_second
  refine ⟨second, h_out.trans h_out', fun r => ?_, readProperties_eq_ok h_original ▸ h⟩
  rw [h_at', h_at, overridden, Option.or_assoc]

end Applied

/-! ## Two packs -/

section Packs

open JsJson (Numbers JsonValue)

def jarUrl : String := "https://cdn.modrinth.com/file"

def webPlatform : Platform Numbers.naturals where
  parseUrl text := if text = jarUrl then some ⟨"https:", "cdn.modrinth.com"⟩ else none
  isInteger n := n.isSome
  natOf n := n.getD 0

def textValue (text : String) : JsonValue (Option Nat) := .str text.toList

/-- The index of a pack with one file. -/
def indexOf (path : String) : JsonValue (Option Nat) :=
  .obj [("formatVersion".toList, .num (some 1)), ("game".toList, textValue "minecraft"),
    ("versionId".toList, textValue "1.0.0"), ("name".toList, textValue "Pack"),
    ("dependencies".toList, .obj [("minecraft".toList, textValue "1.21"),
      ("fabric-loader".toList, textValue "0.16.0")]),
    ("files".toList, .arr [.obj [("path".toList, textValue path),
      ("hashes".toList, .obj [("sha1".toList, .str (List.replicate 40 'a')),
        ("sha512".toList, .str (List.replicate 128 'a'))]),
      ("downloads".toList, .arr [textValue jarUrl]), ("fileSize".toList, .num (some 17))]])]

def manifestWith (path : String) : MrpackManifest where
  name := "Pack"
  versionId := "1.0.0"
  summary := none
  minecraftVersion := "1.21"
  loaderVersion := "0.16.0"
  files := [⟨path, String.ofList (List.replicate 40 'a'), String.ofList (List.replicate 128 'a'), 17,
    [jarUrl]⟩]
  skippedClientOnly := 0
  warnings := [.unknownEnvFiles 1]

def bytesOfText (text : String) : Bytes := text.toList.map fun c => c.toNat.toUInt8

/-- The folder of the server "a" with its settings. -/
def freshServer : Folder Bytes :=
  .folder "a" (.file "server.properties" (bytesOfText "server-port=25570") .empty) .empty

/-- The events of a download that goes well. -/
def oneDownload (content : Bytes) : List DownloadEvent := [.opens 0, .receives 0 content, .lands 0]

/-- A run to the end of its downloads and its overrides. -/
theorem applied_of_run {dir : Path} {files : List MrpackFile} {verified : MrpackFile → Bytes}
    {archive : List ArchiveEntry} {disk disk' : Folder Bytes} {s : Downloads}
    (events : List DownloadEvent)
    (h_run : (downloads dir files verified disk).run ⟨disk, fun _ => .waiting⟩ events = some s)
    (h_done : s.Finished files) (h_over : applyOverrides dir archive s.disk = .ok disk') :
    Applied dir files verified archive disk disk' :=
  ⟨s, Machine.reachable_of_run _ events (.init rfl) h_run, h_done, h_over⟩

/-- What the server's settings become when the index ships some. -/
def movedServer : Folder Bytes :=
  .folder "a" (.file "server.properties" (bytesOfText "server-port=25565") .empty) .empty

/-- A pack with a mod and with settings among its overrides. -/
def packArchive : List ArchiveEntry :=
  [⟨"modrinth.index.json", true, []⟩, ⟨"overrides/", false, []⟩,
    ⟨"./overrides/mods/", false, []⟩,
    ⟨"overrides/./server.properties", true, bytesOfText "motd=hi\nserver-port=1"⟩]

def packedServer : Folder Bytes :=
  .folder "a" (.file "server.properties" (bytesOfText "motd=hi\nserver-port=25570")
    (.folder "mods" (.file "a.jar" [7] .empty) .empty)) .empty

theorem restorable_port : Properties.Restorable (textOf (bytesOfText "motd=hi\nserver-port=1"))
    (textOf (bytesOfText "server-port=25570")) Properties.PANEL_PROPERTY_KEYS := by
  have h_pack : textOf (bytesOfText "motd=hi\nserver-port=1") =
      Properties.unitsOf "motd=hi\nserver-port=1" := by decide +kernel
  have h_base : textOf (bytesOfText "server-port=25570") =
      Properties.unitsOf "server-port=25570" := by decide +kernel
  have h_keys : ∀ key ∈ Properties.PANEL_PROPERTY_KEYS, key = Properties.unitsOf "server-port" ∨
      (Properties.parse (Properties.unitsOf "server-port=25570")).get key = none ∧
        Properties.lastLine (Properties.unitsOf "server-port=25570") key = none := by
    decide +kernel
  have h_reads : Properties.ReadsAs (Properties.unitsOf "server-port=25570")
      (Properties.unitsOf "server-port") (Properties.unitsOf "25570") := by decide +kernel
  have h_last : Properties.lastLine (Properties.unitsOf "server-port=25570")
      (Properties.unitsOf "server-port") = some (Properties.unitsOf "server-port=25570") := by
    decide +kernel
  rw [h_pack, h_base]
  refine ⟨?_, ?_, fun _ => ?_, fun h_appends => ?_⟩
  · intro key h_key value h_value
    obtain rfl | ⟨h_none, -⟩ := h_keys key h_key
    · have h_get : (Properties.parse (Properties.unitsOf "server-port=25570")).get
          (Properties.unitsOf "server-port") = some (Properties.unitsOf "25570") := by
        decide +kernel
      rw [h_get] at h_value
      cases h_value
      exact ⟨_, h_last, h_reads⟩
    · rw [h_none] at h_value
      cases h_value
  · intro key h_key line h_line
    obtain rfl | ⟨-, h_none⟩ := h_keys key h_key
    · rw [h_last] at h_line
      cases h_line
      exact ⟨_, h_reads⟩
    · rw [h_none] at h_line
      cases h_line
  · have h_lines : Properties.splitLf (Properties.unitsOf "motd=hi\nserver-port=1") =
        [Properties.unitsOf "motd=hi", Properties.unitsOf "server-port=1"] := by decide +kernel
    have h_open : (Properties.readFrom none (Properties.splitLines
        (Properties.unitsOf "motd=hi"))).2 = none := by decide +kernel
    have h_key : Properties.keyOf (Properties.unitsOf "server-port=1") =
        some (Properties.unitsOf "server-port") := by decide +kernel
    have h_panel : Properties.panelLine (Properties.unitsOf "server-port=25570")
        Properties.PANEL_PROPERTY_KEYS (Properties.unitsOf "server-port") =
          some (Properties.unitsOf "server-port=25570") := by decide +kernel
    have h_one : Properties.ReadsAs (Properties.unitsOf "server-port=1")
        (Properties.unitsOf "server-port") (Properties.unitsOf "1") := by decide +kernel
    rw [h_lines]
    refine .kept (by decide +kernel) (fun _ h_cr => absurd h_cr (by decide +kernel)) ?_
    rw [h_open]
    refine .replaced h_key h_panel h_one (fun _ e h_e => ?_) (.done fun h_more => h_more.elim)
    rw [List.flatMap_nil, Properties.entriesFrom_none_nil] at h_e
    cases h_e
  · -- the one key of the panel is found in the override
    obtain ⟨key, line, h_line, h_absent⟩ := h_appends
    obtain ⟨h_key, -⟩ := Properties.panelLine_eq_some h_line
    obtain rfl | ⟨-, h_none⟩ := h_keys key h_key
    · have h_there : Properties.keyOf (Properties.unitsOf "server-port=1") =
          some (Properties.unitsOf "server-port") := by decide +kernel
      exact absurd h_there (h_absent _ (by decide +kernel))
    · rw [Properties.panelLine, if_pos (List.contains_iff_mem.mpr h_key), h_none] at h_line
      cases h_line

end Packs
end Kubek.Modpacks
