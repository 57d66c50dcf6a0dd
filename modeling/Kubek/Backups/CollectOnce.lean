/-
  Kubek.Backups.CollectOnce

  How often `collectBackupFiles` lists a file.

  Every selected path is walked on its own, and what the walks find is put one after another
  and then held against the limits. A walk finds a file once (`nodup_walk`), so a file is
  listed twice exactly where it is under two of the selected paths.
-/

import Kubek.Backups.RestoreRoundTrip
import Mathlib.Data.List.Nodup

namespace Kubek.Backups.Archive

open FileTree
open FileTree.Folder
open Kubek.Paths

variable (glob : Glob) (cwd : Path) (backup : BackupRecord)

/-- What the walks find, before the limits are checked. -/
def gathered (server : Folder Bytes) : Option (List ArchiveEntry) := do
  let roots ← roots cwd backup server
  let walked ← roots.mapM (walk (backup.excluded glob) server)
  return walked.flatten

/-- Every file that goes into the backup is listed once, with its size, and nothing else is. -/
structure ListsOnce (server : Folder Bytes) (entries : List ArchiveEntry) : Prop where
  once : (entries.map ArchiveEntry.path).Nodup
  listed : ∀ e, e ∈ entries ↔ Collected glob cwd backup server e.path ∧
    (server.fileAt e.path).map List.length = some e.size

/-- The path is at or below the selected one. -/
def Under (file : String) (p : Path) : Prop :=
  ∃ root, getSafeServerPath cwd backup.serverId file =
    some (serverBase cwd backup.serverId ++ root) ∧ root <+: p

/-- No file that goes into the backup is under two of the selected paths. -/
def SelectedApart (server : Folder Bytes) : Prop :=
  match backup.type with
  | .FULL => True
  | .PARTIAL => backup.selectedFiles.Pairwise fun a b =>
      ∀ p, Collected glob cwd backup server p → ¬ (Under cwd backup a p ∧ Under cwd backup b p)

/-! ## One walk -/

section Walk

variable {excluded : Path → Bool} {f : Folder Bytes} {rel : Path}

/-- What is listed of a folder has one of its names first. -/
theorem not_prefix_of_listed (h_her : Hereditary excluded) (h : f.Distinct) {n : String}
    (h_n : n ∉ f.names) {p : Path}
    (h_p : p ∈ (walkEntries excluded rel f).map ArchiveEntry.path) : ¬ rel ++ [n] <+: p := by
  rintro ⟨q, h_eq⟩
  obtain ⟨e, h_e, rfl⟩ := List.mem_map.mp h_p
  obtain ⟨r, bytes, rfl, h_r, -⟩ := (mem_walkEntries h_her h).mp h_e
  rw [List.append_assoc, List.append_cancel_left_eq] at h_eq
  rw [← h_eq, List.singleton_append, fileAt_cons_none (get_eq_none.mpr h_n)] at h_r
  cases h_r

theorem nodup_walkEntries (h_her : Hereditary excluded) (h : f.Distinct) :
    ((walkEntries excluded rel f).map ArchiveEntry.path).Nodup := by
  induction f generalizing rel with
  | empty => exact List.nodup_nil
  | file n bytes rest ih =>
    rw [walkEntries, List.map_append, List.nodup_append]
    refine ⟨?_, ih h.2, fun p h_p p' h_p' => ?_⟩
    · split
      · exact List.nodup_nil
      · simp
    · split at h_p
      · cases h_p
      · rw [List.map_singleton, List.mem_singleton] at h_p
        rintro rfl
        exact not_prefix_of_listed h_her h.2 h.1 h_p' (h_p ▸ List.prefix_rfl)
  | folder n es rest ih_es ih =>
    rw [walkEntries, List.map_append, List.nodup_append]
    refine ⟨?_, ih h.2.2, fun p h_p p' h_p' => ?_⟩
    · split
      · exact List.nodup_nil
      · exact ih_es h.2.1
    · split at h_p
      · cases h_p
      · obtain ⟨e, h_e, rfl⟩ := List.mem_map.mp h_p
        obtain ⟨q, bytes, rfl, -, -⟩ := (mem_walkEntries h_her h.2.1).mp h_e
        rintro rfl
        exact not_prefix_of_listed h_her h.2.2 h.1 h_p' (List.prefix_append (rel ++ [n]) q)

/-- A walk finds a file once. -/
theorem nodup_walk (h_her : Hereditary excluded) (h : f.Distinct) {es : List ArchiveEntry}
    (h_walk : walk excluded f rel = some es) : (es.map ArchiveEntry.path).Nodup := by
  rw [walk] at h_walk
  split at h_walk
  · cases h_walk
    exact List.nodup_nil
  · split at h_walk
    · cases h_walk
    · cases h_walk
      simp
    · rename_i g h_at
      cases h_walk
      have h_g : g.Distinct := by
        have h_folder := h.folderAt (p := rel)
        rwa [folderAt, h_at] at h_folder
      exact nodup_walkEntries h_her h_g

end Walk

/-! ## All walks -/

section All

variable {glob cwd backup} {server : Folder Bytes} {entries : List ArchiveEntry}
  {roots : List Path}

theorem collectBackupFiles_eq (h : gathered glob cwd backup server = some entries) :
    collectBackupFiles glob cwd backup server =
      if withinLimits entries then some entries else none := by
  rw [gathered, Option.bind_eq_bind, Option.bind_eq_some_iff] at h
  obtain ⟨roots, h_roots, h⟩ := h
  rw [Option.bind_eq_bind, Option.bind_eq_some_iff] at h
  obtain ⟨walked, h_walked, h⟩ := h
  cases h
  rw [collectBackupFiles, h_roots, Option.bind_eq_bind, Option.bind_some, h_walked]
  rfl

/-- The selected path is one of the roots. -/
theorem under_iff {file : String} {root p : Path}
    (h : getRealServerPath cwd backup server file = some root) :
    Under cwd backup file p ↔ root <+: p := by
  have h_safe := getSafeServerPath_of_real h
  rw [Under, h_safe]
  constructor
  · rintro ⟨root', h_eq, h_pre⟩
    rw [Option.some.injEq, List.append_cancel_left_eq] at h_eq
    exact h_eq ▸ h_pre
  · exact fun h_pre => ⟨root, rfl, h_pre⟩

/-- The roots share no file that goes into the backup. -/
theorem selectedApart_iff (h : Archive.roots cwd backup server = some roots) :
    SelectedApart glob cwd backup server ↔ roots.Pairwise fun a b =>
      ∀ p, Collected glob cwd backup server p → ¬ (a <+: p ∧ b <+: p) := by
  rw [Archive.roots] at h
  rw [SelectedApart]
  cases h_type : backup.type with
  | FULL =>
    rw [h_type] at h
    cases h
    simp
  | PARTIAL =>
    rw [h_type] at h
    obtain ⟨rfl, h_all⟩ := Fallible.eq_filterMap_of_mapM h
    rw [List.pairwise_filterMap]
    constructor
    · intro h_apart
      refine h_apart.imp fun h_ab root h_root root' h_root' p h_p => ?_
      rw [← under_iff h_root, ← under_iff h_root']
      exact h_ab p h_p
    · intro h_apart
      refine h_apart.imp_of_mem fun h_a h_b h_ab p h_p => ?_
      obtain ⟨root, h_root⟩ := Option.isSome_iff_exists.mp (h_all _ h_a)
      obtain ⟨root', h_root'⟩ := Option.isSome_iff_exists.mp (h_all _ h_b)
      rw [under_iff h_root, under_iff h_root']
      exact h_ab root h_root root' h_root' p h_p

/-- Two walks list no file twice where none is under both roots. -/
theorem nodup_gathered_iff {walked : List (List ArchiveEntry)} (h_server : server.Distinct)
    (h_roots : Archive.roots cwd backup server = some roots)
    (h_walked : roots.mapM (walk (backup.excluded glob) server) = some walked) :
    (walked.flatten.map ArchiveEntry.path).Nodup ↔ roots.Pairwise fun a b =>
      ∀ p, Collected glob cwd backup server p → ¬ (a <+: p ∧ b <+: p) := by
  have h_her := excluded_hereditary glob backup
  obtain ⟨rfl, h_all⟩ := Fallible.eq_filterMap_of_mapM h_walked
  have h_each : ∀ paths ∈ (roots.filterMap (walk (backup.excluded glob) server)).map
      (List.map ArchiveEntry.path), paths.Nodup := by
    intro paths h_paths
    obtain ⟨es, h_es, rfl⟩ := List.mem_map.mp h_paths
    obtain ⟨root, -, h_walk⟩ := List.mem_filterMap.mp h_es
    exact nodup_walk h_her h_server h_walk
  -- A path that a walk lists is a collected one under its root.
  have h_listed : ∀ root ∈ roots, ∀ es, walk (backup.excluded glob) server root = some es →
      ∀ p, p ∈ es.map ArchiveEntry.path ↔ Collected glob cwd backup server p ∧ root <+: p := by
    intro root h_root es h_walk p
    rw [Collected, inSelection_iff h_roots]
    constructor
    · intro h_p
      obtain ⟨e, h_e, rfl⟩ := List.mem_map.mp h_p
      obtain ⟨p, bytes, rfl, h_pre, h_file, h_ex⟩ := (mem_walk h_her h_server h_walk).mp h_e
      exact ⟨⟨by simp [h_file], h_ex, root, h_root, h_pre⟩, h_pre⟩
    · rintro ⟨⟨h_file, h_ex, -⟩, h_pre⟩
      obtain ⟨bytes, h_bytes⟩ := Option.isSome_iff_exists.mp h_file
      exact List.mem_map.mpr ⟨⟨p, bytes.length⟩,
        (mem_walk h_her h_server h_walk).mpr ⟨p, bytes, rfl, h_pre, h_bytes, h_ex⟩, rfl⟩
  rw [List.map_flatten, List.nodup_flatten, and_iff_right h_each, List.pairwise_map,
    List.pairwise_filterMap]
  constructor
  · intro h_apart
    refine h_apart.imp_of_mem fun {a b} h_a h_b h_ab p h_p h_both => ?_
    obtain ⟨es, h_es⟩ := Option.isSome_iff_exists.mp (h_all a h_a)
    obtain ⟨es', h_es'⟩ := Option.isSome_iff_exists.mp (h_all b h_b)
    exact h_ab es h_es es' h_es' ((h_listed a h_a es h_es p).mpr ⟨h_p, h_both.1⟩)
      ((h_listed b h_b es' h_es' p).mpr ⟨h_p, h_both.2⟩)
  · intro h_apart
    refine h_apart.imp_of_mem fun {a b} h_a h_b h_ab es h_es es' h_es' p h_p h_p' => ?_
    have h_left := (h_listed a h_a es h_es p).mp h_p
    exact h_ab p h_left.1 ⟨h_left.2, ((h_listed b h_b es' h_es' p).mp h_p').2⟩

/-- Of a server that is walked through, the files are listed once each exactly where none of
    them is under two of the selected paths; and the limits are checked on that list. -/
theorem listsOnce_iff (server : SoundTree Bytes)
    (h : gathered glob cwd backup server.root = some entries) :
    collectBackupFiles glob cwd backup server.root =
        (if withinLimits entries then some entries else none) ∧
      (ListsOnce glob cwd backup server.root entries ↔
        SelectedApart glob cwd backup server.root) := by
  refine ⟨collectBackupFiles_eq h, ?_⟩
  rw [gathered, Option.bind_eq_bind, Option.bind_eq_some_iff] at h
  obtain ⟨roots, h_roots, h⟩ := h
  rw [Option.bind_eq_bind, Option.bind_eq_some_iff] at h
  obtain ⟨walked, h_walked, h⟩ := h
  cases h
  rw [selectedApart_iff h_roots, ← nodup_gathered_iff server.distinct h_roots h_walked]
  exact ⟨fun h => h.once, fun h_nodup => ⟨h_nodup, mem_gathered server.distinct h_roots h_walked⟩⟩

end All

/-- A backup of the paths. -/
def selecting (files : List String) : BackupRecord where
  serverId := "s"
  type := .PARTIAL
  selectedFiles := files
  globExceptions := ["*.log"]

/-- A file of the server folder and a folder in it. -/
theorem listsOnce_apart :
    ListsOnce plainGlob ["panel"] (selecting ["motd", "world/"]) lobby.root
      [⟨["motd"], 1⟩, ⟨["world", "level.dat"], 1⟩] := by
  have h_gathered : gathered plainGlob ["panel"] (selecting ["motd", "world/"]) lobby.root =
      some [⟨["motd"], 1⟩, ⟨["world", "level.dat"], 1⟩] := by decide +kernel
  refine (listsOnce_iff lobby h_gathered).2.mpr ?_
  have h_motd : getSafeServerPath ["panel"] "s" "motd" =
      some (serverBase ["panel"] "s" ++ ["motd"]) := by decide +kernel
  have h_world : getSafeServerPath ["panel"] "s" "world/" =
      some (serverBase ["panel"] "s" ++ ["world"]) := by decide +kernel
  refine List.pairwise_pair.mpr ?_
  rintro p - ⟨⟨a, h_a, h_pre⟩, b, h_b, h_pre'⟩
  rw [selecting, h_motd, Option.some.injEq, List.append_cancel_left_eq] at h_a
  rw [selecting, h_world, Option.some.injEq, List.append_cancel_left_eq] at h_b
  subst h_a h_b
  obtain ⟨q, rfl⟩ := h_pre
  rw [List.singleton_append, List.cons_prefix_cons] at h_pre'
  exact absurd h_pre'.1 (by decide)

/-- A folder and a file inside it are selected, and the file is listed twice. -/
theorem nested_is_listed_twice : ¬ ∀ (glob : Glob) (cwd : Path) (backup : BackupRecord)
    (server : SoundTree Bytes) (entries : List ArchiveEntry),
    collectBackupFiles glob cwd backup server.root = some entries →
      ListsOnce glob cwd backup server.root entries := by
  intro h
  have h_collect : collectBackupFiles plainGlob ["panel"] (selecting ["world", "world/level.dat"])
      lobby.root = some [⟨["world", "level.dat"], 1⟩, ⟨["world", "level.dat"], 1⟩] := by
    decide +kernel
  have h_once := (h _ _ _ lobby _ h_collect).once
  simp at h_once

end Kubek.Backups.Archive
