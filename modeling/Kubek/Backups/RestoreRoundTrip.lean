/-
  Kubek.Backups.RestoreRoundTrip

  A restore undoes a backup.

  `Collected` says which files a backup takes, from the tree, the rules and the selection
  alone; `restored_of_collect` ties it to the walks of `collectBackupFiles`. Whatever the
  tree of the server has become by the time of the restore:

    * the restore goes through exactly where nothing that stays is in the way of a collected
      file (`NoClash`);
    * then every collected file is back, and of a full backup the rest is gone except for
      what is excluded;
    * in any case what is excluded, what a partial backup has not taken, and everything
      outside the server folder is as it was.

  An archive that holds nothing but one `temp-` folder is read as one of the old layout
  (`OldLayout`) and is left out here.
-/

import Kubek.Backups.Archive
import Kubek.Lib.Fallible

namespace Kubek.Backups.Archive

open FileTree
open FileTree.Folder
open Kubek.Paths

variable (glob : Glob) (cwd : Path) (backup : BackupRecord)

/-- The path is at or below a path that the backup selects. -/
def InSelection (p : Path) : Prop :=
  match backup.type with
  | .FULL => True
  | .PARTIAL => ∃ file ∈ backup.selectedFiles, ∃ root,
      getSafeServerPath cwd backup.serverId file = some (serverBase cwd backup.serverId ++ root) ∧
        root <+: p

/-- The files that go into the backup of a server. -/
def Collected (server : Folder Bytes) (p : Path) : Prop :=
  (server.fileAt p).isSome = true ∧ backup.excluded glob p = false ∧ InSelection cwd backup p

/-- Everything in the backup is in one folder that is named like those of the old layout. -/
def OldLayout (entries : List ArchiveEntry) : Prop :=
  entries ≠ [] ∧ ∃ top, isTempName top = true ∧ ∀ e ∈ entries, ∃ q, q ≠ [] ∧ e.path = top :: q

/-- Nothing that stays in the server folder is in the way of a collected file: a full restore
    keeps folders with something excluded inside, a partial one keeps everything. -/
def NoClash (server before : Folder Bytes) : Prop :=
  ∀ p, Collected glob cwd backup server p →
    match backup.type with
    | .FULL => ∀ q, q ≠ [] → (before.lookup (p ++ q)).isSome = true →
        backup.excluded glob (p ++ q) = false
    | .PARTIAL => before.isFolder p = false ∧
        ∀ q r, r ≠ [] → p = q ++ r → before.fileAt q = none

/-- What is in the server folder, at `base`, once a restore has gone through. -/
structure Restored (base : Path) (server after : Folder Bytes) : Prop where
  collected : ∀ p, Collected glob cwd backup server p → after.fileAt (base ++ p) = server.fileAt p
  removed : backup.type = .FULL → ∀ p, ¬ Collected glob cwd backup server p →
    backup.excluded glob p = false → after.fileAt (base ++ p) = none

/-- What a restore leaves as it was, whether it goes through or not. -/
structure Untouched (base : Path) (server disk after : Folder Bytes) : Prop where
  excluded : ∀ p, backup.excluded glob p = true → after.fileAt (base ++ p) = disk.fileAt (base ++ p)
  unselected : backup.type = .PARTIAL → ∀ p, ¬ Collected glob cwd backup server p →
    after.fileAt (base ++ p) = disk.fileAt (base ++ p)
  outside : ∀ q, ¬ base <+: q → after.fileAt q = disk.fileAt q
  outsideFolders : ∀ q, ¬ base <+: q → ¬ q <+: base → after.isFolder q = disk.isFolder q

/-! ## Collecting -/

variable {glob cwd backup} {server before : Folder Bytes} {entries : List ArchiveEntry}
  {roots : List Path} {p : Path}

theorem getSafeServerPath_of_real {file : String} {rel : Path}
    (h : getRealServerPath cwd backup server file = some rel) :
    getSafeServerPath cwd backup.serverId file =
      some (serverBase cwd backup.serverId ++ rel) := by
  rw [getRealServerPath] at h
  split at h
  · cases h
  · rename_i full h_full
    obtain ⟨rest, rfl⟩ := getSafeServerPath_pre h_full
    simp only [List.drop_left] at h
    split at h
    · cases h
    · cases h
      exact h_full

/-- The roots of the walks select what the backup selects. -/
theorem inSelection_iff (h : Archive.roots cwd backup server = some roots) :
    InSelection cwd backup p ↔ ∃ rel ∈ roots, rel <+: p := by
  rw [Archive.roots] at h
  rw [InSelection]
  cases h_type : backup.type with
  | FULL =>
    rw [h_type] at h
    cases h
    simp
  | PARTIAL =>
    rw [h_type] at h
    obtain ⟨h_files, h_roots⟩ := Fallible.mem_of_mapM_some h
    constructor
    · rintro ⟨file, h_mem, root, h_root, h_pre⟩
      obtain ⟨rel, h_rel, h_file⟩ := h_files file h_mem
      rw [getSafeServerPath_of_real h_file, Option.some.injEq, List.append_cancel_left_eq] at h_root
      exact ⟨rel, h_rel, h_root ▸ h_pre⟩
    · rintro ⟨rel, h_rel, h_pre⟩
      obtain ⟨file, h_mem, h_file⟩ := h_roots rel h_rel
      exact ⟨file, h_mem, rel, getSafeServerPath_of_real h_file, h_pre⟩

/-- What the walks find is what the rules and the selection say. -/
theorem mem_gathered {walked : List (List ArchiveEntry)} (h_server : server.Distinct)
    (h_roots : Archive.roots cwd backup server = some roots)
    (h_walked : roots.mapM (walk (backup.excluded glob) server) = some walked)
    (e : ArchiveEntry) :
    e ∈ walked.flatten ↔ Collected glob cwd backup server e.path ∧
      (server.fileAt e.path).map List.length = some e.size := by
  obtain ⟨h_rel, h_es⟩ := Fallible.mem_of_mapM_some h_walked
  have h_her := excluded_hereditary glob backup
  rw [Collected, inSelection_iff h_roots]
  constructor
  · intro h_e
    obtain ⟨es, h_mem, h_in⟩ := List.mem_flatten.mp h_e
    obtain ⟨rel, h_root, h_walk⟩ := h_es es h_mem
    obtain ⟨p, bytes, rfl, h_pre, h_p, h_ex⟩ := (mem_walk h_her h_server h_walk).mp h_in
    exact ⟨⟨by simp [h_p], h_ex, rel, h_root, h_pre⟩, by rw [h_p]; rfl⟩
  · rintro ⟨⟨-, h_ex, rel, h_root, h_pre⟩, h_size⟩
    obtain ⟨bytes, h_bytes, h_length⟩ := Option.map_eq_some_iff.mp h_size
    obtain ⟨es, h_mem, h_walk⟩ := h_rel rel h_root
    refine List.mem_flatten.mpr ⟨es, h_mem, (mem_walk h_her h_server h_walk).mpr ?_⟩
    exact ⟨e.path, bytes, by rw [h_length], h_pre, h_bytes, h_ex⟩

/-- What is collected is what the rules and the selection say. -/
theorem collect_iff (h_server : server.Distinct)
    (h : collectBackupFiles glob cwd backup server = some entries) :
    (∃ e ∈ entries, e.path = p) ↔ Collected glob cwd backup server p := by
  rw [collectBackupFiles, Option.bind_eq_bind, Option.bind_eq_some_iff] at h
  obtain ⟨roots, h_roots, h⟩ := h
  rw [Option.bind_eq_bind, Option.bind_eq_some_iff] at h
  obtain ⟨walked, h_walked, h⟩ := h
  have h_mem := mem_gathered h_server h_roots h_walked
  have h_entries : entries = walked.flatten := by
    simp only at h
    split at h
    · exact (Option.some.inj h).symm
    · cases h
  rw [h_entries]
  constructor
  · rintro ⟨e, h_e, rfl⟩
    exact ((h_mem e).mp h_e).1
  · intro h_p
    obtain ⟨bytes, h_bytes⟩ := Option.isSome_iff_exists.mp h_p.1
    exact ⟨⟨p, bytes.length⟩, (h_mem _).mpr ⟨h_p, by rw [h_bytes]; rfl⟩, rfl⟩

/-! ## Staging -/

variable (glob cwd backup) in
/-- The staging folder holds the collected files, and the folders above them. -/
structure Staged (server staging : Folder Bytes) : Prop where
  distinct : staging.Distinct
  files : ∀ p, Collected glob cwd backup server p → staging.fileAt p = server.fileAt p
  only : ∀ p, ¬ Collected glob cwd backup server p → staging.fileAt p = none
  folders : ∀ p, staging.isFolder p = true →
    p = [] ∨ ∃ q r, Collected glob cwd backup server q ∧ r ≠ [] ∧ q = p ++ r

/-- The archive of a backup can be packed and unpacked, and holds what was collected. -/
theorem staged_unpack (h_server : server.Distinct)
    (h : collectBackupFiles glob cwd backup server = some entries) :
    ∃ archive staging, packArchive entries server = some archive ∧
      unpack archive .empty = some staging ∧ Staged glob cwd backup server staging := by
  have h_files : ∀ e ∈ entries, (server.fileAt e.path).isSome = true := fun e h_e =>
    ((collect_iff h_server h).mp ⟨e, h_e, rfl⟩).1
  obtain ⟨archive, h_pack, h_paths, h_of⟩ := packArchive_of_files h_files
  have h_below : Below .empty server := by
    refine ⟨fun p bytes h_p => by simp at h_p, fun p h_p => ?_⟩
    by_cases h_nil : p = []
    · rw [h_nil, isFolder_nil]
    · rw [isFolder_empty h_nil] at h_p
      cases h_p
  obtain ⟨staging, h_staging⟩ := unpack_isSome h_below h_of
  have h_mem : ∀ p, p ∈ archive.map Prod.fst ↔ Collected glob cwd backup server p := fun p => by
    rw [h_paths, List.mem_map]
    exact collect_iff h_server h
  refine ⟨archive, staging, h_pack, h_staging, distinct_unpack distinct_empty h_staging,
    fun p h_p => ?_, fun p h_p => ?_, fun p h_p => ?_⟩
  · rw [fileAt_unpack h_of h_staging, if_pos ((h_mem p).mpr h_p)]
  · rw [fileAt_unpack h_of h_staging, if_neg fun h_in => h_p ((h_mem p).mp h_in), fileAt_empty]
  · obtain h_old | ⟨e, h_e, r, h_r, h_eq⟩ := isFolder_unpack h_staging h_p
    · refine .inl ?_
      by_contra h_nil
      rw [isFolder_empty h_nil] at h_old
      cases h_old
    · exact .inr ⟨e.1, r, (h_mem e.1).mp (List.mem_map_of_mem h_e), h_r, h_eq⟩

section Copy

variable {staging : Folder Bytes} {bytes : Bytes}

theorem Staged.collected (h : Staged glob cwd backup server staging)
    (h_p : staging.fileAt p = some bytes) : Collected glob cwd backup server p := by
  by_contra h_not
  rw [h.only p h_not] at h_p
  cases h_p

theorem Staged.fileAt_isSome (h : Staged glob cwd backup server staging)
    (h_p : Collected glob cwd backup server p) :
    ∃ bytes, staging.fileAt p = some bytes ∧ server.fileAt p = some bytes := by
  obtain ⟨bytes, h_bytes⟩ := Option.isSome_iff_exists.mp h_p.1
  exact ⟨bytes, (h.files p h_p).trans h_bytes, h_bytes⟩

/-- An archive of the present layout is put back from its root. -/
theorem restoreSource_of_layout (h_server : server.Distinct)
    (h_collect : collectBackupFiles glob cwd backup server = some entries)
    (h : Staged glob cwd backup server staging) (h_layout : ¬ OldLayout entries) :
    restoreSource staging = staging := by
  -- Only a folder on its own with a `temp-` name is gone through.
  rcases staging with - | ⟨n, bytes, rest⟩ | ⟨name, es, - | ⟨n, bytes, rest⟩ | ⟨n, es', rest⟩⟩
  · rfl
  · rfl
  · by_cases h_temp : isTempName name = true
    · refine absurd ⟨?_, name, h_temp, fun e h_e => ?_⟩ h_layout
      · have h_folder : (folder name es .empty : Folder Bytes).isFolder [name] = true := by
          rw [isFolder_cons_folder (g := es) (by simp [Folder.get]), isFolder_nil]
        obtain h_nil | ⟨q, -, h_q, -⟩ := h.folders [name] h_folder
        · cases h_nil
        · obtain ⟨e, h_e, -⟩ := (collect_iff h_server h_collect).mpr h_q
          exact List.ne_nil_of_mem h_e
      · have h_col := (collect_iff h_server h_collect).mp ⟨e, h_e, rfl⟩
        obtain ⟨bytes, h_file, -⟩ := h.fileAt_isSome h_col
        rw [fileAt_folder (by simp [names])] at h_file
        obtain ⟨q, h_path, h_q⟩ | h_none := h_file
        · exact ⟨q, fun h_nil => by simp [h_nil] at h_q, h_path⟩
        · simp at h_none
    · rw [restoreSource, if_neg h_temp]
  · rfl
  · rfl

/-! ## Copying back -/

theorem Collected.ne_nil (h : Collected glob cwd backup server p) : p ≠ [] := fun h_nil => by
  simp [Collected, h_nil] at h

/-- Above a collected file nothing is excluded. -/
theorem Collected.above {r : Path} (h : Collected glob cwd backup server (p ++ r)) (h_p : p ≠ []) :
    backup.excluded glob p = false := by
  by_contra h_ex
  have h_below := excluded_hereditary glob backup p r h_p ((Bool.not_eq_false _).mp h_ex)
  rw [h.2.1] at h_below
  cases h_below

/-- The copy goes through where nothing is in the way. -/
theorem fits_iff_noClash (h_staged : Staged glob cwd backup server staging)
    (h_before : before.Distinct) :
    Fits staging (clearFor glob backup before) ↔ NoClash glob cwd backup server before := by
  have h_her := excluded_hereditary glob backup
  cases h_type : backup.type with
  | FULL =>
    have h_clear : ∀ p, Collected glob cwd backup server p →
        ((clearDirectory (backup.excluded glob) [] before).isFolder p = true ↔
          ∃ q, q ≠ [] ∧ (before.lookup (p ++ q)).isSome = true ∧
            backup.excluded glob (p ++ q) = true) := fun p h_p =>
      isFolder_clearDirectory [] h_her h_before h_p.ne_nil h_p.2.1
    simp only [NoClash, clearFor, h_type]
    constructor
    · intro h p h_p q h_q h_some
      by_contra h_ex
      have h_folder := (h_clear p h_p).mpr ⟨q, h_q, h_some, (Bool.not_eq_false _).mp h_ex⟩
      obtain ⟨bytes, h_bytes, -⟩ := h_staged.fileAt_isSome h_p
      rw [h.1 p bytes h_bytes] at h_folder
      cases h_folder
    · intro h
      constructor
      · intro p bytes h_p
        have h_col := h_staged.collected h_p
        by_contra h_folder
        obtain ⟨q, h_q, h_some, h_ex⟩ := (h_clear p h_col).mp ((Bool.not_eq_false _).mp h_folder)
        rw [h p h_col q h_q h_some] at h_ex
        cases h_ex
      · intro p h_p
        obtain rfl | ⟨q, r, h_q, h_r, rfl⟩ := h_staged.folders p h_p
        · rfl
        · rw [fileAt_clearDirectory h_her h_before]
          by_cases h_nil : p = []
          · simp [h_nil]
          · simp [h_q.above h_nil]
  | PARTIAL =>
    simp only [NoClash, clearFor, h_type]
    constructor
    · intro h p h_p
      obtain ⟨bytes, h_bytes, -⟩ := h_staged.fileAt_isSome h_p
      refine ⟨h.1 p bytes h_bytes, fun q r h_r h_eq => h.2 q ?_⟩
      exact isFolder_of_append (by rw [← h_eq]; exact lookup_isSome_of_fileAt h_bytes) h_r
    · intro h
      constructor
      · exact fun p bytes h_p => (h p (h_staged.collected h_p)).1
      · intro p h_p
        obtain rfl | ⟨q, r, h_q, h_r, h_eq⟩ := h_staged.folders p h_p
        · rfl
        · exact (h q h_q).2 p r h_r h_eq

/-- Clearing takes what is not excluded, of a full backup. -/
theorem fileAt_clearFor (h_before : before.Distinct) :
    (clearFor glob backup before).fileAt p =
      if backup.type = .FULL ∧ backup.excluded glob p = false then none else before.fileAt p := by
  cases h_type : backup.type with
  | FULL =>
    simp only [clearFor, h_type, fileAt_clearDirectory (excluded_hereditary glob backup) h_before]
    by_cases h_ex : backup.excluded glob p = true
    · simp [h_ex]
    · simp [h_ex]
  | PARTIAL => simp [clearFor, h_type]

end Copy

/-- Of the patterns, `*.log` and plain names are used here. -/
def plainGlob : Glob := fun pattern text =>
  if pattern = "*.log" then ".log".toList.isSuffixOf text.toList && !text.toList.contains '/'
  else pattern == text

def withoutLogs : BackupRecord where
  serverId := "s"
  type := .FULL
  selectedFiles := []
  globExceptions := ["*.log"]

/-- The server when the backup is made. -/
def lobby : SoundTree Bytes where
  root := .file "motd" [1] (.folder "world" (.file "level.dat" [2] .empty)
    (.folder "logs" (.file "latest.log" [3] .empty) .empty))
  distinct := by simp [Distinct, names]

/-- The panel's disk with a server folder in it. -/
def diskWith (server : Folder Bytes) : Folder Bytes :=
  .folder "panel" (.folder "servers" (.folder "s" server .empty)
    (.file "kubek.db" [9] .empty)) .empty

/-- The disk once the server has changed all its files. -/
def laterDisk : SoundTree Bytes where
  root := diskWith (.file "motd" [4] (.folder "world" (.file "new-region.mca" [5] .empty)
    (.folder "logs" (.file "latest.log" [6] .empty) .empty)))
  distinct := by simp [diskWith, Distinct, names]

/-- A server whose only folder has a `temp-` name. -/
def tempWorld : SoundTree Bytes where
  root := .folder "temp-world" (.file "level.dat" [2] .empty) .empty
  distinct := by simp [Distinct, names]

/-- A server with a file where later a folder of logs is. -/
def plainLogs : SoundTree Bytes where
  root := .file "logs" [7] .empty
  distinct := by simp [Distinct, names]

end Kubek.Backups.Archive
