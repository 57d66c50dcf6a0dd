/-
  Kubek.Backups.Archive

  What goes into a backup archive and how it is put back (`backup-files.ts`,
  `backup-archiver.ts`, `backup-restorer.ts`, `exclusions.ts`), over trees of regular files
  and folders.

  The archive library keeps a list of paths with their bytes. `Bun.Glob` is a parameter. A
  path is the list of its names, and the text the exclusion rules read is these names with
  slashes between them; it is empty for the server folder alone. Without links the real
  path of a selected file is the path itself, and `dropLinksInTheWay` finds nothing to drop.
-/

import Kubek.Core.Paths

namespace Kubek.Backups.Archive

open FileTree
open FileTree.Folder
open Kubek.Paths

abbrev Bytes := List UInt8

/-- A backup record, as far as it decides what is packed and restored. -/
inductive BackupType
  | FULL
  | PARTIAL
  deriving DecidableEq

structure BackupRecord where
  serverId : String
  type : BackupType
  /-- `selectedFiles`, the paths of it. -/
  selectedFiles : List String
  globExceptions : List String

/-! ## Exclusions -/

/-- `Bun.Glob`: does the pattern match the text? -/
abbrev Glob := String → String → Bool

/-- `pattern.trim().replace(/^\.\//, "").replace(/\/+$/, "")`. -/
def normalizePattern (pattern : String) : String :=
  let chars := JsText.trimChars pattern.toList
  let chars := if "./".toList.isPrefixOf chars then chars.drop 2 else chars
  String.ofList (chars.reverse.dropWhile (· == '/')).reverse

def isSlash (c : Char) : Bool := c == '/' || c == '\\'

/-- A pattern with a slash matches some path from the server root down to an entry or a
    folder above it, one without a slash some name on the way. -/
def ruleMatches (glob : Glob) (segments : List String) (pattern : String) : Bool :=
  if pattern.toList.contains '/' then
    (List.range segments.length).any fun i => glob pattern ("/".intercalate (segments.take (i + 1)))
  else segments.any (glob pattern)

def createExclusionMatcher (glob : Glob) (patterns : List String) (relPath : String) : Bool :=
  let rules := (patterns.map normalizePattern).filter (· ≠ "")
  rules.any (ruleMatches glob (JsText.splitWhere isSlash relPath))

/-- The path as the rules read it. -/
def relText (p : Path) : String := "/".intercalate p

variable (glob : Glob)

/-- The rules of a backup, on a path. -/
def BackupRecord.excluded (backup : BackupRecord) (p : Path) : Bool :=
  createExclusionMatcher glob backup.globExceptions (relText p)

/-! ## Collecting -/

structure ArchiveEntry where
  path : Path
  size : Nat
  deriving DecidableEq

def MAX_BACKUP_SIZE : Nat := 10 * 1024 * 1024 * 1024
def MAX_FILE_COUNT : Nat := 10000

/-- `walk` over the entries of a folder. -/
def walkEntries (excluded : Path → Bool) (rel : Path) : Folder Bytes → List ArchiveEntry
  | .empty => []
  | .file n bytes rest =>
      (if excluded (rel ++ [n]) then [] else [⟨rel ++ [n], bytes.length⟩]) ++
        walkEntries excluded rel rest
  | .folder n es rest =>
      (if excluded (rel ++ [n]) then [] else walkEntries excluded (rel ++ [n]) es) ++
        walkEntries excluded rel rest

/-- `walk` from a root; `none` where there is nothing to look at. -/
def walk (excluded : Path → Bool) (server : Folder Bytes) (rel : Path) :
    Option (List ArchiveEntry) :=
  if rel ≠ [] ∧ excluded rel then some []
  else
    match server.lookup rel with
    | none => none
    | some (.file bytes) => some [⟨rel, bytes.length⟩]
    | some (.folder es) => some (walkEntries excluded rel es)

/-- `getRealServerPath`, from the server folder; `none` where it throws. Without links only a
    path through a file has no real path. -/
def getRealServerPath (cwd : Path) (backup : BackupRecord) (server : Folder Bytes)
    (requested : String) : Option Path :=
  match getSafeServerPath cwd backup.serverId requested with
  | none => none
  | some full =>
      let rel := full.drop (serverBase cwd backup.serverId).length
      if rel.inits.dropLast.any fun q => (server.fileAt q).isSome then none else some rel

/-- The paths that are walked. -/
def roots (cwd : Path) (backup : BackupRecord) (server : Folder Bytes) : Option (List Path) :=
  match backup.type with
  | .FULL => some [[]]
  | .PARTIAL => backup.selectedFiles.mapM (getRealServerPath cwd backup server)

/-- `assertLimits` lets the entries pass. -/
def withinLimits (entries : List ArchiveEntry) : Bool :=
  entries.foldl (fun sum e => sum + e.size) 0 ≤ MAX_BACKUP_SIZE &&
    entries.length ≤ MAX_FILE_COUNT

/-- `none` where it throws. -/
def collectBackupFiles (cwd : Path) (backup : BackupRecord) (server : Folder Bytes) :
    Option (List ArchiveEntry) := do
  let roots ← roots cwd backup server
  let walked ← roots.mapM (walk (backup.excluded glob) server)
  let entries := walked.flatten
  if withinLimits entries then some entries else none

/-! ## Packing and unpacking -/

/-- `packArchive`: the bytes of every entry; `none` where one is no file any more. -/
def packArchive (entries : List ArchiveEntry) (server : Folder Bytes) :
    Option (List (Path × Bytes)) :=
  entries.mapM fun entry => (server.fileAt entry.path).map fun bytes => (entry.path, bytes)

/-- Write the entries of an archive one after another. -/
def unpack : List (Path × Bytes) → Folder Bytes → Option (Folder Bytes)
  | [], dest => some dest
  | (path, bytes) :: archive, dest => (writeFile bytes path dest).bind (unpack archive)

/-! ## Restoring -/

/-- The name of the folder that archives made before 4.1 nest everything in. -/
def isTempName (name : String) : Bool := "temp-".toList.isPrefixOf name.toList

def restoreSource : Folder Bytes → Folder Bytes
  | .folder name es .empty => if isTempName name then es else .folder name es .empty
  | staging => staging

/-- Remove what is not excluded; a folder stays when an excluded entry still lives inside. -/
def clearDirectory (excluded : Path → Bool) (rel : Path) : Folder Bytes → Folder Bytes
  | .empty => .empty
  | .file n bytes rest =>
      if excluded (rel ++ [n]) then .file n bytes (clearDirectory excluded rel rest)
      else clearDirectory excluded rel rest
  | .folder n es rest =>
      if excluded (rel ++ [n]) then .folder n es (clearDirectory excluded rel rest)
      else
        match clearDirectory excluded (rel ++ [n]) es with
        | .empty => clearDirectory excluded rel rest
        | left => .folder n left (clearDirectory excluded rel rest)

/-- The server folder before the copy. -/
def clearFor (backup : BackupRecord) (server : Folder Bytes) : Folder Bytes :=
  match backup.type with
  | .FULL => clearDirectory (backup.excluded glob) [] server
  | .PARTIAL => server

/-- `restoreInto`, on the disk with the server folder at `serverPath`: the disk afterwards and
    whether it went through. -/
def restoreInto (archive : List (Path × Bytes)) (serverPath : Path) (backup : BackupRecord)
    (disk : Folder Bytes) : Folder Bytes × Bool :=
  match unpack archive .empty with
  | none => (disk, false)
  | some staging =>
      within (fun server => copyInto (restoreSource staging) (clearFor glob backup server))
        serverPath disk

/-! ## The rules go down the tree -/

/-- What is below an excluded path is excluded. -/
def Hereditary (excluded : Path → Bool) : Prop :=
  ∀ p q, p ≠ [] → excluded p = true → excluded (p ++ q) = true

theorem splitWhere_relText_append {p q : Path} (h_p : p ≠ []) (h_q : q ≠ []) :
    JsText.splitWhere isSlash (relText (p ++ q)) =
      JsText.splitWhere isSlash (relText p) ++ JsText.splitWhere isSlash (relText q) := by
  have h_text : (relText (p ++ q)).toList = (relText p).toList ++ '/' :: (relText q).toList := by
    simp [relText, String.intercalate_append_of_ne_nil h_p h_q]
  rw [JsText.splitWhere, h_text, JsText.splitWhereChars_append rfl, List.map_append]
  rfl

theorem ruleMatches_append {segments : List String} {pattern : String}
    (h : ruleMatches glob segments pattern = true) (more : List String) :
    ruleMatches glob (segments ++ more) pattern = true := by
  simp only [ruleMatches] at h ⊢
  split
  · rename_i h_slash
    rw [if_pos h_slash, List.any_eq_true] at h
    obtain ⟨i, h_i, h_glob⟩ := h
    rw [List.mem_range] at h_i
    rw [List.any_eq_true]
    refine ⟨i, ?_, ?_⟩
    · rw [List.mem_range, List.length_append]
      omega
    · rwa [List.take_append_of_le_length (by omega)]
  · rename_i h_slash
    rw [if_neg h_slash] at h
    rw [List.any_append, h, Bool.true_or]

theorem excluded_hereditary (backup : BackupRecord) : Hereditary (backup.excluded glob) := by
  intro p q h_p h
  by_cases h_q : q = []
  · rwa [h_q, List.append_nil]
  · simp only [BackupRecord.excluded, createExclusionMatcher, List.any_eq_true] at h ⊢
    obtain ⟨pattern, h_mem, h_match⟩ := h
    refine ⟨pattern, h_mem, ?_⟩
    rw [splitWhere_relText_append h_p h_q]
    exact ruleMatches_append glob h_match _

/-! ## What the walks reach -/

section Walk

variable {excluded : Path → Bool} {f : Folder Bytes} {rel p q : Path} {m : String}

/-- The walk of a folder finds its files that are not excluded. -/
theorem mem_walkEntries (h_her : Hereditary excluded) (h : f.Distinct) {e : ArchiveEntry} :
    e ∈ walkEntries excluded rel f ↔
      ∃ q bytes, e = ⟨rel ++ q, bytes.length⟩ ∧ f.fileAt q = some bytes ∧
        excluded (rel ++ q) = false := by
  induction f generalizing rel with
  | empty => simp [walkEntries]
  | file n bytes rest ih =>
    have h_first : e ∈ (if excluded (rel ++ [n]) then [] else [⟨rel ++ [n], bytes.length⟩]) ↔
        e = ⟨rel ++ [n], bytes.length⟩ ∧ excluded (rel ++ [n]) = false := by
      by_cases h_ex : excluded (rel ++ [n]) = true
      · simp [h_ex]
      · simp [h_ex]
    rw [walkEntries, List.mem_append, h_first, ih h.2]
    constructor
    · rintro (⟨rfl, h_ex⟩ | ⟨q, b, rfl, h_q, h_ex⟩)
      · exact ⟨[n], bytes, rfl, (fileAt_file h.1).mpr (.inl ⟨rfl, rfl⟩), h_ex⟩
      · exact ⟨q, b, rfl, (fileAt_file h.1).mpr (.inr h_q), h_ex⟩
    · rintro ⟨q, b, rfl, h_q, h_ex⟩
      obtain ⟨rfl, rfl⟩ | h_q := (fileAt_file h.1).mp h_q
      · exact .inl ⟨rfl, h_ex⟩
      · exact .inr ⟨q, b, rfl, h_q, h_ex⟩
  | folder n es rest ih_es ih =>
    have h_first :
        e ∈ (if excluded (rel ++ [n]) then [] else walkEntries excluded (rel ++ [n]) es) ↔
          ∃ q bytes, e = ⟨rel ++ n :: q, bytes.length⟩ ∧ es.fileAt q = some bytes ∧
            excluded (rel ++ n :: q) = false := by
      by_cases h_ex : excluded (rel ++ [n]) = true
      · -- Nothing below an excluded folder is taken.
        have h_below : ∀ q, excluded (rel ++ n :: q) = true := fun q => by
          simpa using h_her (rel ++ [n]) q (by simp) h_ex
        simp [h_ex, h_below]
      · rw [if_neg h_ex, ih_es h.2.1]
        simp
    rw [walkEntries, List.mem_append, h_first, ih h.2.2]
    constructor
    · rintro (⟨q, b, rfl, h_q, h_ex⟩ | ⟨q, b, rfl, h_q, h_ex⟩)
      · exact ⟨n :: q, b, rfl, (fileAt_folder h.1).mpr (.inl ⟨q, rfl, h_q⟩), h_ex⟩
      · exact ⟨q, b, rfl, (fileAt_folder h.1).mpr (.inr h_q), h_ex⟩
    · rintro ⟨q, b, rfl, h_q, h_ex⟩
      obtain ⟨r, rfl, h_r⟩ | h_q := (fileAt_folder h.1).mp h_q
      · exact .inl ⟨r, b, rfl, h_r, h_ex⟩
      · exact .inr ⟨q, b, rfl, h_q, h_ex⟩

/-- A walk finds the files at its root and below it that are not excluded. -/
theorem mem_walk (h_her : Hereditary excluded) (h : f.Distinct) {es : List ArchiveEntry}
    (h_walk : walk excluded f rel = some es) {e : ArchiveEntry} :
    e ∈ es ↔ ∃ p bytes, e = ⟨p, bytes.length⟩ ∧ rel <+: p ∧ f.fileAt p = some bytes ∧
      excluded p = false := by
  rw [walk] at h_walk
  split at h_walk
  · rename_i h_root
    cases h_walk
    simp only [List.not_mem_nil, false_iff]
    rintro ⟨p, bytes, -, ⟨q, rfl⟩, -, h_ex⟩
    rw [h_her rel q h_root.1 h_root.2] at h_ex
    cases h_ex
  · rename_i h_root
    split at h_walk
    · cases h_walk
    · rename_i bytes h_at
      cases h_walk
      have h_ne : rel ≠ [] := fun h_nil => by simp [h_nil] at h_at
      have h_ex : excluded rel = false := by simpa [h_ne] using h_root
      rw [List.mem_singleton]
      constructor
      · rintro rfl
        exact ⟨rel, bytes, rfl, List.prefix_rfl, by simp [fileAt, h_at], h_ex⟩
      · rintro ⟨p, bytes', rfl, ⟨q, rfl⟩, h_p, -⟩
        by_cases h_q : q = []
        · rw [h_q, List.append_nil] at h_p ⊢
          simp only [fileAt, h_at, Option.some.injEq] at h_p
          rw [h_p]
        · simp [fileAt, lookup_append_file h_at h_q] at h_p
    · rename_i g h_at
      cases h_walk
      have h_g : g.Distinct := by
        have h_folder := h.folderAt (p := rel)
        rwa [folderAt, h_at] at h_folder
      rw [mem_walkEntries h_her h_g]
      constructor
      · rintro ⟨q, bytes, rfl, h_q, h_ex⟩
        refine ⟨rel ++ q, bytes, rfl, List.prefix_append rel q, ?_, h_ex⟩
        rwa [fileAt, lookup_append_folder q h_at]
      · rintro ⟨p, bytes, rfl, ⟨q, rfl⟩, h_p, h_ex⟩
        refine ⟨q, bytes, rfl, ?_, h_ex⟩
        rwa [fileAt, lookup_append_folder q h_at] at h_p

/-! ## What clearing leaves -/

/-- What is left of an entry. -/
def cleared (excluded : Path → Bool) (rel : Path) (m : String) (node : Node Bytes) :
    Option (Node Bytes) :=
  if excluded (rel ++ [m]) then some node
  else
    match node with
    | .file _ => none
    | .folder es =>
        if clearDirectory excluded (rel ++ [m]) es = .empty then none
        else some (.folder (clearDirectory excluded (rel ++ [m]) es))

theorem clearDirectory_folder {es rest : Folder Bytes} (h : ¬ excluded (rel ++ [m]) = true) :
    clearDirectory excluded rel (.folder m es rest) =
      if clearDirectory excluded (rel ++ [m]) es = .empty then clearDirectory excluded rel rest
      else .folder m (clearDirectory excluded (rel ++ [m]) es)
        (clearDirectory excluded rel rest) := by
  rw [clearDirectory, if_neg h]
  cases clearDirectory excluded (rel ++ [m]) es with
  | empty => rw [if_pos rfl]
  | file n bytes left => rw [if_neg (by simp)]
  | folder n es' left => rw [if_neg (by simp)]

variable (excluded rel m) in
theorem get_clearDirectory (h : f.Distinct) :
    (clearDirectory excluded rel f).get m = (f.get m).bind (cleared excluded rel m) := by
  induction f with
  | empty => rfl
  | file n bytes rest ih =>
    have h_none : rest.get n = none := get_eq_none.mpr h.1
    by_cases h_m : m = n
    · subst h_m
      by_cases h_ex : excluded (rel ++ [m]) = true
      · simp [clearDirectory, h_ex, Folder.get, cleared]
      · simp [clearDirectory, h_ex, Folder.get, cleared, ih h.2, h_none]
    · rw [get_file_ne h_m, ← ih h.2, clearDirectory]
      split
      · exact get_file_ne h_m
      · rfl
  | folder n es rest _ ih =>
    have h_none : rest.get n = none := get_eq_none.mpr h.1
    by_cases h_m : m = n
    · subst h_m
      by_cases h_ex : excluded (rel ++ [m]) = true
      · simp [clearDirectory, h_ex, Folder.get, cleared]
      · rw [clearDirectory_folder h_ex]
        split
        · rename_i h_left
          simp [Folder.get, cleared, h_ex, h_left, ih h.2.2, h_none]
        · rename_i h_left
          simp [Folder.get, cleared, h_ex, h_left]
    · rw [get_folder_ne h_m, ← ih h.2.2]
      by_cases h_ex : excluded (rel ++ [n]) = true
      · rw [clearDirectory, if_pos h_ex, get_folder_ne h_m]
      · rw [clearDirectory_folder h_ex]
        split
        · rfl
        · exact get_folder_ne h_m

theorem cleared_kept {node : Node Bytes} (h : excluded (rel ++ [m]) = true) :
    cleared excluded rel m node = some node := by
  cases node with
  | file bytes => simp only [cleared, h, if_true]
  | folder es => simp only [cleared, h, if_true]

theorem fileAt_clearDirectory (h_her : Hereditary excluded) (h : f.Distinct) :
    (clearDirectory excluded rel f).fileAt p =
      if excluded (rel ++ p) then f.fileAt p else none := by
  induction p generalizing f rel with
  | nil => simp
  | cons m p ih =>
    have h_get := get_clearDirectory excluded rel m h
    have h_below : excluded (rel ++ [m]) = true → excluded (rel ++ m :: p) = true := fun h_ex => by
      simpa using h_her (rel ++ [m]) p (by simp) h_ex
    cases h_f : f.get m with
    | none =>
      rw [h_f, Option.bind_none] at h_get
      rw [fileAt_cons_none h_get, fileAt_cons_none h_f, ite_self]
    | some node =>
      rw [h_f, Option.bind_some] at h_get
      by_cases h_ex : excluded (rel ++ [m]) = true
      · rw [cleared_kept h_ex, ← h_f] at h_get
        rw [fileAt_congr h_get, if_pos (h_below h_ex)]
      · cases node with
        | file bytes =>
          simp only [cleared, h_ex] at h_get
          rw [fileAt_cons_none h_get, fileAt_cons_file h_f]
          by_cases h_p : p = []
          · simp [h_p, h_ex]
          · simp [h_p]
        | folder es =>
          simp only [cleared, h_ex] at h_get
          have h_es := @ih es (rel ++ [m]) (h.get h_f)
          rw [List.append_assoc, List.singleton_append] at h_es
          rw [fileAt_cons_folder h_f, ← h_es]
          by_cases h_left : clearDirectory excluded (rel ++ [m]) es = .empty
          · rw [if_pos h_left] at h_get
            rw [fileAt_cons_none h_get, h_left, fileAt_empty]
          · rw [if_neg h_left] at h_get
            exact fileAt_cons_folder h_get

theorem Distinct.clearDirectory (h : f.Distinct) : (clearDirectory excluded rel f).Distinct := by
  induction f generalizing rel with
  | empty => trivial
  | file n bytes rest ih =>
    rw [Archive.clearDirectory]
    split
    · refine ⟨?_, ih h.2⟩
      rw [← get_eq_none, get_clearDirectory excluded rel n h.2, get_eq_none.mpr h.1, Option.bind_none]
    · exact ih h.2
  | folder n es rest ih_es ih =>
    have h_rest : n ∉ (Archive.clearDirectory excluded rel rest).names := by
      rw [← get_eq_none, get_clearDirectory excluded rel n h.2.2, get_eq_none.mpr h.1, Option.bind_none]
    by_cases h_ex : excluded (rel ++ [n]) = true
    · rw [Archive.clearDirectory, if_pos h_ex]
      exact ⟨h_rest, h.2.1, ih h.2.2⟩
    · rw [clearDirectory_folder h_ex]
      split
      · exact ih h.2.2
      · exact ⟨h_rest, ih_es h.2.1, ih h.2.2⟩

theorem eq_empty_iff_get {g : Folder Bytes} : g = .empty ↔ ∀ m, g.get m = none := by
  cases g with
  | empty => simp [Folder.get]
  | file n bytes rest =>
    simp only [reduceCtorEq, false_iff]
    exact fun h => by simpa [Folder.get] using h n
  | folder n es rest =>
    simp only [reduceCtorEq, false_iff]
    exact fun h => by simpa [Folder.get] using h n

variable (excluded rel) in
/-- A folder is cleared away where nothing excluded lives inside. -/
theorem clearDirectory_eq_empty (h : f.Distinct) :
    clearDirectory excluded rel f = .empty ↔
      ∀ q, q ≠ [] → (f.lookup q).isSome = true → excluded (rel ++ q) = false := by
  induction f using induction_get generalizing rel with
  | step f ih =>
    have h_entry : ∀ m, (clearDirectory excluded rel f).get m = none ↔
        ∀ q, (f.lookup (m :: q)).isSome = true → excluded (rel ++ m :: q) = false := by
      intro m
      rw [get_clearDirectory excluded rel m h]
      cases h_f : f.get m with
      | none => simp [lookup, h_f]
      | some node =>
        rw [Option.bind_some]
        by_cases h_ex : excluded (rel ++ [m]) = true
        · rw [cleared_kept h_ex]
          refine ⟨fun h_none => (by cases h_none), fun h_all => ?_⟩
          have h_at := h_all [] (by cases node <;> simp [lookup, h_f])
          rw [h_at] at h_ex
          cases h_ex
        · cases node with
          | file bytes =>
            simp only [cleared, h_ex, lookup, h_f]
            refine ⟨fun _ q h_q => ?_, fun _ => rfl⟩
            have h_nil : q = [] := by
              by_contra h_ne
              simp [h_ne] at h_q
            simpa [h_nil] using h_ex
          | folder es =>
            have h_es := ih m es h_f (rel ++ [m]) (h.get h_f)
            simp only [List.append_assoc, List.singleton_append] at h_es
            have h_step : cleared excluded rel m (.folder es) = none ↔
                clearDirectory excluded (rel ++ [m]) es = .empty := by
              simp [cleared, h_ex]
            rw [h_step, h_es]
            simp only [lookup, h_f]
            constructor
            · intro h_all q h_q
              by_cases h_nil : q = []
              · simpa [h_nil] using h_ex
              · exact h_all q h_nil h_q
            · exact fun h_all q _ h_q => h_all q h_q
    rw [eq_empty_iff_get]
    constructor
    · intro h_all q h_q h_some
      cases q with
      | nil => exact absurd rfl h_q
      | cons m q => exact (h_entry m).mp (h_all m) q h_some
    · exact fun h_all m => (h_entry m).mpr fun q h_some => h_all (m :: q) (by simp) h_some

variable (rel) in
/-- A path that is not excluded is a folder afterwards where something excluded lives
    inside. -/
theorem isFolder_clearDirectory (h_her : Hereditary excluded) (h : f.Distinct) (h_p : p ≠ [])
    (h_ex : excluded (rel ++ p) = false) :
    (clearDirectory excluded rel f).isFolder p = true ↔
      ∃ q, q ≠ [] ∧ (f.lookup (p ++ q)).isSome = true ∧ excluded (rel ++ (p ++ q)) = true := by
  induction p generalizing f rel with
  | nil => exact absurd rfl h_p
  | cons m p ih =>
    have h_m : ¬ excluded (rel ++ [m]) = true := by
      intro h_m
      have h_below := h_her (rel ++ [m]) p (by simp) h_m
      rw [List.append_assoc, List.singleton_append, h_ex] at h_below
      cases h_below
    have h_get := get_clearDirectory excluded rel m h
    cases h_f : f.get m with
    | none =>
      rw [h_f, Option.bind_none] at h_get
      simp [isFolder_cons_none h_get, lookup, h_f]
    | some node =>
      rw [h_f, Option.bind_some] at h_get
      cases node with
      | file bytes =>
        simp only [cleared, h_m] at h_get
        simp only [isFolder_cons_none h_get, List.cons_append, lookup, h_f]
        refine ⟨fun h_eq => (by cases h_eq), ?_⟩
        rintro ⟨q, h_q, h_some, -⟩
        simp [h_q] at h_some
      | folder es =>
        simp only [cleared, h_m] at h_get
        have h_es : es.Distinct := h.get h_f
        have h_empty := clearDirectory_eq_empty excluded (rel ++ [m]) h_es
        simp only [List.append_assoc, List.singleton_append] at h_empty
        simp only [List.cons_append, lookup, h_f]
        by_cases h_left : clearDirectory excluded (rel ++ [m]) es = .empty
        · rw [if_neg Bool.false_ne_true, if_pos h_left] at h_get
          rw [isFolder_cons_none h_get]
          refine ⟨fun h_eq => (by cases h_eq), ?_⟩
          rintro ⟨q, h_q, h_some, h_ex'⟩
          rw [h_empty.mp h_left (p ++ q) (by simp [h_q]) h_some] at h_ex'
          cases h_ex'
        · rw [if_neg Bool.false_ne_true, if_neg h_left] at h_get
          rw [isFolder_cons_folder h_get]
          by_cases h_nil : p = []
          · -- Something is left inside, so something excluded lives there.
            rw [h_empty] at h_left
            simp only [not_forall] at h_left
            obtain ⟨q, h_q, h_some, h_ex'⟩ := h_left
            simp only [h_nil, isFolder_nil, List.nil_append, true_iff]
            exact ⟨q, h_q, h_some, by simpa using h_ex'⟩
          · have h_rec := @ih es (rel ++ [m]) h_es h_nil (by simpa using h_ex)
            simpa only [List.append_assoc, List.singleton_append] using h_rec

end Walk

/-! ## Unpacking what was packed -/

section Unpack

variable {server dest dest' : Folder Bytes} {archive : List (Path × Bytes)}
  {entries : List ArchiveEntry} {p q : Path}

/-- All that is in the folder is in the other one too. -/
def Below (f server : Folder Bytes) : Prop :=
  (∀ p bytes, f.fileAt p = some bytes → server.fileAt p = some bytes) ∧
    ∀ p, f.isFolder p = true → server.isFolder p = true

theorem writeFile_below {bytes : Bytes} (h_below : Below dest server)
    (h_p : server.fileAt p = some bytes) :
    ∃ dest', writeFile bytes p dest = some dest' ∧ Below dest' server := by
  have h_ne : p ≠ [] := fun h_nil => by simp [h_nil] at h_p
  have h_some : (writeFile bytes p dest).isSome = true := by
    apply writeFile_isSome h_ne
    · by_contra h_folder
      have h_server := h_below.2 p ((Bool.not_eq_false _).mp h_folder)
      rw [not_isFolder_of_fileAt h_p] at h_server
      cases h_server
    · intro q r h_r h_eq
      cases h_q : dest.fileAt q with
      | none => rfl
      | some above =>
        have h_file := not_isFolder_of_fileAt (h_below.1 q above h_q)
        have h_folder : server.isFolder q = true :=
          isFolder_of_append (by rw [← h_eq]; exact lookup_isSome_of_fileAt h_p) h_r
        rw [h_file] at h_folder
        cases h_folder
  obtain ⟨dest', h_dest'⟩ := Option.isSome_iff_exists.mp h_some
  refine ⟨dest', h_dest', fun q above h_q => ?_, fun q h_q => ?_⟩
  · rw [fileAt_writeFile h_dest'] at h_q
    split at h_q
    · rename_i h_eq
      rw [h_eq, h_p, ← h_q]
    · exact h_below.1 q above h_q
  · obtain h_old | ⟨r, h_r, h_eq⟩ := isFolder_writeFile h_dest' h_q
    · exact h_below.2 q h_old
    · exact isFolder_of_append (by rw [← h_eq]; exact lookup_isSome_of_fileAt h_p) h_r

/-- The archive holds files of the server as they are there. -/
def OfServer (server : Folder Bytes) (archive : List (Path × Bytes)) : Prop :=
  ∀ e ∈ archive, server.fileAt e.1 = some e.2

theorem unpack_isSome (h_below : Below dest server) (h : OfServer server archive) :
    ∃ dest', unpack archive dest = some dest' := by
  induction archive generalizing dest with
  | nil => exact ⟨dest, rfl⟩
  | cons e archive ih =>
    obtain ⟨next, h_next, h_below'⟩ := writeFile_below h_below (h e List.mem_cons_self)
    obtain ⟨dest', h_dest'⟩ := ih h_below' fun e' h_e' => h e' (List.mem_cons_of_mem _ h_e')
    exact ⟨dest', by rw [unpack, h_next]; exact h_dest'⟩

theorem fileAt_unpack (h : OfServer server archive) (h_unpack : unpack archive dest = some dest') :
    dest'.fileAt p = if p ∈ archive.map Prod.fst then server.fileAt p else dest.fileAt p := by
  induction archive generalizing dest with
  | nil =>
    cases h_unpack
    rfl
  | cons e archive ih =>
    rw [unpack, Option.bind_eq_some_iff] at h_unpack
    obtain ⟨next, h_next, h_rest⟩ := h_unpack
    rw [ih (fun e' h_e' => h e' (List.mem_cons_of_mem _ h_e')) h_rest, fileAt_writeFile h_next]
    by_cases h_mem : p ∈ archive.map Prod.fst
    · simp only [h_mem, List.map_cons, List.mem_cons, or_true, if_true]
    · by_cases h_eq : p = e.1
      · simp [h_eq, h e List.mem_cons_self]
      · simp [h_mem, h_eq]

theorem isFolder_unpack (h_unpack : unpack archive dest = some dest')
    (h_p : dest'.isFolder p = true) :
    dest.isFolder p = true ∨ ∃ e ∈ archive, ∃ r, r ≠ [] ∧ e.1 = p ++ r := by
  induction archive generalizing dest with
  | nil =>
    cases h_unpack
    exact .inl h_p
  | cons e archive ih =>
    rw [unpack, Option.bind_eq_some_iff] at h_unpack
    obtain ⟨next, h_next, h_rest⟩ := h_unpack
    obtain h_old | ⟨e', h_e', r, h_r, h_eq⟩ := ih h_rest
    · obtain h_old | ⟨r, h_r, h_eq⟩ := isFolder_writeFile h_next h_old
      · exact .inl h_old
      · exact .inr ⟨e, List.mem_cons_self, r, h_r, h_eq⟩
    · exact .inr ⟨e', List.mem_cons_of_mem _ h_e', r, h_r, h_eq⟩

theorem distinct_unpack (h_dest : dest.Distinct) (h_unpack : unpack archive dest = some dest') :
    dest'.Distinct := by
  induction archive generalizing dest with
  | nil =>
    cases h_unpack
    exact h_dest
  | cons e archive ih =>
    rw [unpack, Option.bind_eq_some_iff] at h_unpack
    obtain ⟨next, h_next, h_rest⟩ := h_unpack
    exact ih (distinct_writeFile h_dest h_next) h_rest

/-- Files that are there are packed with their bytes. -/
theorem packArchive_of_files (h : ∀ e ∈ entries, (server.fileAt e.path).isSome = true) :
    ∃ archive, packArchive entries server = some archive ∧
      archive.map Prod.fst = entries.map (·.path) ∧ OfServer server archive := by
  induction entries with
  | nil => exact ⟨[], rfl, rfl, by simp [OfServer]⟩
  | cons e entries ih =>
    obtain ⟨archive, h_pack, h_paths, h_of⟩ := ih fun e' h_e' => h e' (List.mem_cons_of_mem _ h_e')
    obtain ⟨bytes, h_bytes⟩ := Option.isSome_iff_exists.mp (h e List.mem_cons_self)
    refine ⟨(e.path, bytes) :: archive, ?_, by simp [h_paths], ?_⟩
    · rw [packArchive] at h_pack ⊢
      simp [List.mapM_cons, h_bytes, h_pack]
    · simpa [OfServer, h_bytes] using h_of

end Unpack

end Kubek.Backups.Archive
