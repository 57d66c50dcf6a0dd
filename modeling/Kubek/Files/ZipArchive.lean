/-
  Kubek.Files.ZipArchive

  `createZipArchive` of `file-batch.service.ts`: which selections are walked, and under what
  names their files go into the archive.

  The tree has symbolic links and stays as it is during the call, but for the `.part` file
  that the archive is written to: what is read of that one, should it be selected, is
  arbitrary. Progress is left out, and so are sockets and the like, which the walk passes by
  as it does links.
-/

import Mathlib.Data.List.Pairwise
import Kubek.Core.PathText
import Kubek.Core.RealPath
import Kubek.Lib.Fallible
import Kubek.Lib.Selection
import Kubek.Lib.TreeFiles

namespace Kubek.Files

open FileTree (Path Folder Leaf Node LinkTree IsName)
open Kubek.Paths

/-! ## The file system and the archive library -/

/-- The folder tree of the machine and the working directory of the panel. -/
structure Disk (α : Type) where
  tree : LinkTree α
  /-- How many links the system follows at most. -/
  limit : Nat
  cwd : Path
  distinct : tree.Distinct
  named : tree.Named IsName
  noDots : ".." ∉ cwd

/-- The zip library: entries are added under a name, and what was written can be read. -/
structure Zip (α : Type) where
  Archive : Type
  write : List (String × α) → Except String Archive
  read : Archive → List (String × α)
  read_write : ∀ entries archive, write entries = .ok archive → read archive = entries

/-- The characters that an archive name must not contain. -/
def isReserved (c : Char) : Bool := ['/', '\\', ':', '*', '?', '"', '<', '>', '|'].contains c

/-- `archiveName`, as `CreateArchiveDto` lets it pass. -/
structure ArchiveName where
  text : String
  nonempty : text ≠ ""
  plain : text.toList.any isReserved = false

inductive Refusal
  | badRequest (message : String)
  | notFound (message : String)
  | internal (message : String)
  deriving DecidableEq

namespace Disk

variable {α : Type} (d : Disk α)

/-- `pathExists`: links are followed. -/
def pathExists (p : Path) : Bool :=
  match d.tree.realpath d.limit p with
  | .ok _ => true
  | .error _ => false

/-- Where an entry is and what it is, a link not followed. -/
def lstat (p : Path) : Option (Path × Node (Leaf α)) :=
  match p.getLast? with
  | none => some ([], .folder d.tree)
  | some name =>
      match d.tree.follow d.limit [] p.dropLast with
      | .found dir => (d.tree.lookup (dir ++ [name])).map (dir ++ [name], ·)
      | _ => none

/-- `(await fs.lstat(path)).isDirectory()`. -/
def isDirectory (p : Path) : Bool :=
  match d.lstat p with
  | some (_, .folder _) => true
  | _ => false

def isDirectoryEntry (p : Path) : Bool := d.pathExists p && d.isDirectory p

def badPath : Refusal := .badRequest "Invalid path: directory traversal attempt detected"

/-- `getSafeServerPath`, with what it throws. -/
def safePath (serverId requested : String) : Except Refusal Path :=
  match getSafeServerPath d.cwd serverId requested with
  | some p => .ok p
  | none =>
      if serverId = "" || hasSlashOrDots serverId then .error (.badRequest "Invalid server id")
      else .error badPath

/-- `assertRealPathInside`; false where it throws. -/
def realPathInside (serverId : String) (p : Path) : Bool :=
  match getSafeServerPath d.cwd serverId "" with
  | none => false
  | some base =>
      match d.tree.realpath d.limit base with
      -- A folder that doesn't exist yet can't link anywhere.
      | .error _ => true
      | .ok realBase => probeUp d.tree d.limit realBase false 1 p == some true

end Disk

def isSlash (c : Char) : Bool := c == '/' || c == '\\'

/-! ## The selections -/

/-- The selected paths without spellings that come again. -/
def sources (paths : List String) : List String := (paths.map normalize).eraseDups

/-- `normalizedSources.sort((a, b) => a.length - b.length)`. -/
def sortedSources (paths : List String) : List String :=
  Selection.byKey JsText.length (sources paths)

/-- `existing` is a folder and `src` lies inside it by path text. -/
def covers {α : Type} (d : Disk α) (serverId existing src : String) : Bool :=
  match getSafeServerPath d.cwd serverId existing, getSafeServerPath d.cwd serverId src with
  | some safeExisting, some safe =>
      d.isDirectory safeExisting && decide (safe ≠ safeExisting) && isInside safeExisting safe
  | _, _ => false

/-- One source of the loop over `normalizedSources`. -/
def includeSource {α : Type} (d : Disk α) (serverId : String) (included : List String)
    (src : String) : Except Refusal (List String) := do
  let safe ← d.safePath serverId src
  if !d.pathExists safe then
    .error (.notFound ("Source not found: " ++ (JsText.splitWhere isSlash src).getLastD ""))
  else if !d.realPathInside serverId safe then .error Disk.badPath
  else if included.any fun existing => covers d serverId existing src then .ok included
  else .ok (included ++ [src])

def sourcesToInclude {α : Type} (d : Disk α) (serverId : String) (paths : List String) :
    Except Refusal (List String) :=
  (sortedSources paths).foldlM (includeSource d serverId) []

/-! ## The entries -/

/-- A file to pack: where it is, its name in the archive, and what it holds. -/
structure Entry (α : Type) where
  location : Path
  archiveRelPath : String
  bytes : α

/-- `walk`, in a folder at `dir`. -/
def walk {α : Type} (dir : Path) (rel : String) : LinkTree α → List (Entry α)
  | .empty => []
  | .file n (.regular a) rest => ⟨dir ++ [n], join rel n, a⟩ :: walk dir rel rest
  | .file _ (.link _) rest => walk dir rel rest
  | .folder n es rest => walk (dir ++ [n]) (join rel n) es ++ walk dir rel rest

/-- The last name of a source; the archive's own where there is none. -/
def baseName (archiveName : ArchiveName) (src : String) : String :=
  ((JsText.splitWhere isSlash src).filter (· ≠ "")).getLastD archiveName.text

def entriesOf {α : Type} (d : Disk α) (serverId : String) (archiveName : ArchiveName)
    (src : String) : List (Entry α) :=
  match (getSafeServerPath d.cwd serverId src).bind d.lstat with
  | some (location, .file (.regular a)) => [⟨location, baseName archiveName src, a⟩]
  | some (location, .folder es) => walk location (baseName archiveName src) es
  | _ => []

/-! ## The archive -/

/-- What `createZipArchive` leaves: the archive, and the files its entries were read from. -/
structure Zipped {α : Type} (zip : Zip α) where
  archive : zip.Archive
  files : List Path

/-- `${safeArchivePath}.part`. -/
def partPath (archivePath : Path) : Path :=
  archivePath.dropLast ++ [archivePath.getLastD "" ++ ".part"]

/-- The file that is there already and that the archive is written to. -/
def Disk.overwritten {α : Type} (d : Disk α) (part : Path) : Option Path :=
  match d.tree.follow d.limit [] part with
  | .found p => some p
  | _ => none

/-- What is read of an entry while the archive is written. -/
def readAs {α : Type} (overwritten : Option Path) (torn : α) (e : Entry α) : String × α :=
  (e.archiveRelPath, if overwritten = some e.location then torn else e.bytes)

def createZipArchive {α : Type} (zip : Zip α) (d : Disk α) (torn : α) (serverId : String)
    (paths : List String) (destPath : String) (archiveName : ArchiveName) :
    Except Refusal (Zipped zip) := do
  if paths.isEmpty then .error (.badRequest "At least one path is required") else
  let safeDestDir ← d.safePath serverId destPath
  if !d.isDirectoryEntry safeDestDir then
    .error (.notFound "Destination directory not found")
  else if !d.realPathInside serverId safeDestDir then .error Disk.badPath else
  let safeArchivePath ← d.safePath serverId (join destPath (archiveName.text ++ ".zip"))
  if d.pathExists safeArchivePath then .error (.badRequest "Archive file already exists") else
  let included ← sourcesToInclude d serverId paths
  let entries := included.flatMap (entriesOf d serverId archiveName)
  if entries.isEmpty then .error (.badRequest "No files to archive (selection is empty)") else
  let overwritten := d.overwritten (partPath safeArchivePath)
  if overwritten.any d.tree.isFolder then
    .error (.internal "Failed to create archive: EISDIR: illegal operation on a directory")
  else
    match zip.write (entries.map (readAs overwritten torn)) with
    | .error message => .error (.internal ("Failed to create archive: " ++ message))
    | .ok archive => .ok ⟨archive, entries.map Entry.location⟩

/-! ## What is promised -/

section Promise

variable {α : Type} (d : Disk α) (serverId : String) (archiveName : ArchiveName)
  (paths : List String)

/-- A regular file at or below a selection: behind it by `r`, at `f`, holding `a`. -/
def Under (s : String) (r f : Path) (a : α) : Prop :=
  ∃ location node, (getSafeServerPath d.cwd serverId s).bind d.lstat = some (location, node) ∧
    f = location ++ r ∧ d.tree.fileAt f = some (.regular a)

/-- Every regular file at or below a selected path is in the archive once, under names that
    tell entries apart, with the bytes it holds. -/
structure LosesNothing {zip : Zip α} (result : Zipped zip) : Prop where
  once : result.files.Nodup
  all : ∀ f, f ∈ result.files ↔ ∃ p ∈ paths, ∃ r a, Under d serverId p r f a
  named : ((zip.read result.archive).map Prod.fst).Nodup
  bytes : List.Forall₂ (fun f e => d.tree.fileAt f = some (.regular e.2)) result.files
    (zip.read result.archive)

/-- No other selection that is listed before covers it: one with a shorter text, or with one
    of the same length that was named first. -/
def Outermost (s : String) : Prop :=
  s ∈ sources paths ∧ ∀ e ∈ sources paths,
    Selection.Before JsText.length (sources paths) e s → covers d serverId e s = false

/-- The names of an entry: the last one of the selection, then those below it. -/
def shown (base : String) (r : Path) : List String :=
  if r = [] then [base] else if base = "." then r else base :: r

/-- What `createZipArchive` does not check of a selection. -/
structure Separate (destPath : String) (torn : α) : Prop where
  /-- What lies in a selected folder by its text lies in it on the disk. -/
  reached : ∀ s ∈ sources paths, ∀ r f a, Under d serverId s r f a →
    ∃ k, Outermost d serverId paths k ∧ ∃ r', Under d serverId k r' f a
  /-- No file is below two selections. -/
  apart : ∀ k k', Outermost d serverId paths k → Outermost d serverId paths k' → k ≠ k' →
    ∀ r r' f a a', Under d serverId k r f a → ¬ Under d serverId k' r' f a'
  /-- Files below two selections differ in the name of the selection or in the path behind it. -/
  named : ∀ k k', Outermost d serverId paths k → Outermost d serverId paths k' → k ≠ k' →
    ∀ r r' f f' a a', Under d serverId k r f a → Under d serverId k' r' f' a' →
      shown (baseName archiveName k) r ≠ shown (baseName archiveName k') r'
  /-- The archive is not written over a selected file. -/
  whole : ∀ s ∈ sources paths, ∀ r f a, Under d serverId s r f a →
    ∀ p, getSafeServerPath d.cwd serverId (join destPath (archiveName.text ++ ".zip")) = some p →
      d.overwritten (partPath p) = some f → a = torn

end Promise

/-! ## The walk -/

section Walk

variable {α : Type}

def regular? : Leaf α → Option α
  | .regular a => some a
  | .link _ => none

theorem walk_eq (f : LinkTree α) (dir : Path) (rel : String) :
    walk dir rel f = f.files.filterMap fun x =>
      (regular? x.2).map fun a => ⟨dir ++ x.1, x.1.foldl join rel, a⟩ := by
  induction f generalizing dir rel with
  | empty => rfl
  | file n leaf rest ih =>
    cases leaf with
    | regular a =>
      rw [walk, ih, Folder.files, List.filterMap_cons]
      rfl
    | link target =>
      rw [walk, ih, Folder.files, List.filterMap_cons]
      rfl
  | folder n es rest ih_es ih =>
    rw [walk, ih_es, ih, Folder.files, List.filterMap_append, List.filterMap_map]
    congr 1
    refine List.filterMap_congr fun x _ => ?_
    simp [Function.comp]

/-- The names of a base: it has no slash, so it is one segment. -/
structure IsBase (base : String) : Prop where
  nonempty : base ≠ ""
  noSlash : '/' ∉ base.toList

theorem foldl_join {segs : List String} (h : Segments segs) (h_ne : segs ≠ [])
    (h_tail : ".." ∉ segs.tail) {r : Path} (h_r : ∀ n ∈ r, IsName n) :
    r.foldl join ("/".intercalate segs) = "/".intercalate (segs ++ r) := by
  induction r generalizing segs with
  | nil => rw [List.foldl_nil, List.append_nil]
  | cons n r ih =>
    have h_n := h_r n List.mem_cons_self
    rw [List.foldl_cons, join_segments h h_ne h_tail h_n]
    have h_next := ih (h.concat h_n.nonempty h_n.notDot h_n.noSlash)
      (List.append_ne_nil_of_left_ne_nil h_ne [n]) (by
        rw [List.tail_append_of_ne_nil h_ne]
        intro h_mem
        obtain h_mem | h_mem := List.mem_append.mp h_mem
        · exact h_tail h_mem
        · exact h_n.notDots (List.mem_singleton.mp h_mem).symm)
      fun m h_m => h_r m (List.mem_cons_of_mem n h_m)
    rw [h_next, List.append_assoc, List.singleton_append]

/-- The name of an entry is its segments with slashes between them. -/
theorem foldl_join_base {base : String} (h : IsBase base) {r : Path} (h_r : ∀ n ∈ r, IsName n) :
    r.foldl join base = "/".intercalate (shown base r) := by
  cases r with
  | nil => rw [shown, if_pos rfl, List.foldl_nil, String.intercalate_singleton]
  | cons n r =>
    have h_n := h_r n List.mem_cons_self
    rw [shown, if_neg (List.cons_ne_nil n r)]
    split
    · rename_i h_dot
      rw [h_dot, List.foldl_cons, join_dot h_n]
      have h_join := foldl_join (segments_of_name h_n) (List.cons_ne_nil _ _) (by simp)
        fun m h_m => h_r m (List.mem_cons_of_mem n h_m)
      rwa [String.intercalate_singleton] at h_join
    · rename_i h_dot
      have h_base : Segments [base] := by
        refine ⟨fun x h_x => ?_, fun x h_x => ?_, fun x h_x => ?_⟩
        all_goals rw [List.mem_singleton.mp h_x]
        · exact h.nonempty
        · exact h_dot
        · exact h.noSlash
      have h_join := foldl_join h_base (List.cons_ne_nil _ _) (by simp) h_r
      rwa [String.intercalate_singleton] at h_join

theorem shown_ne_nil (base : String) (r : Path) : shown base r ≠ [] := by
  rw [shown]
  split
  · exact List.cons_ne_nil _ _
  · split
    · assumption
    · exact List.cons_ne_nil _ _

theorem noSlash_shown {base : String} (h : IsBase base) {r : Path} (h_r : ∀ n ∈ r, IsName n) :
    ∀ s ∈ shown base r, '/' ∉ s.toList := by
  intro s h_s
  rw [shown] at h_s
  split at h_s
  · rw [List.mem_singleton.mp h_s]
    exact h.noSlash
  · split at h_s
    · exact (h_r s h_s).noSlash
    · obtain rfl | h_s := List.mem_cons.mp h_s
      · exact h.noSlash
      · exact (h_r s h_s).noSlash

/-- Names of entries agree where their segments do. -/
theorem shown_injective {b b' : String} {r r' : Path} (h : IsBase b) (h' : IsBase b')
    (h_r : ∀ n ∈ r, IsName n) (h_r' : ∀ n ∈ r', IsName n) :
    "/".intercalate (shown b r) = "/".intercalate (shown b' r') ↔ shown b r = shown b' r' := by
  refine ⟨fun h_eq => ?_, congrArg _⟩
  have h_slash : "/".toList = ['/'] := rfl
  rw [← JsText.split_intercalate (shown_ne_nil b r) h_slash (noSlash_shown h h_r), h_eq]
  exact JsText.split_intercalate (shown_ne_nil b' r') h_slash (noSlash_shown h' h_r')

/-- Below one selection the path behind it tells entries apart. -/
theorem shown_below {b : String} {r r' : Path} (h_r : r ≠ []) (h_r' : r' ≠ [])
    (h : shown b r = shown b r') : r = r' := by
  rw [shown, shown, if_neg h_r, if_neg h_r'] at h
  split at h
  · exact h
  · exact List.tail_eq_of_cons_eq h

end Walk

/-! ## The entries of a selection -/

section Entries

variable {α : Type} {d : Disk α} {serverId : String} {archiveName : ArchiveName} {s : String}
  {p location : Path} {node : Node (Leaf α)} {e : Entry α}

theorem not_sep_of_mem_splitWhereChars {q : Char → Bool} {xs part : List Char}
    (h : part ∈ JsText.splitWhereChars q xs) : ∀ c ∈ part, q c = false := by
  induction xs generalizing part with
  | nil =>
    rw [List.mem_singleton.mp h]
    exact fun _ h_c => by cases h_c
  | cons x xs ih =>
    rw [JsText.splitWhereChars] at h
    split at h
    · obtain rfl | h := List.mem_cons.mp h
      · exact fun _ h_c => by cases h_c
      · exact ih h
    · rename_i h_x
      split at h
      · rw [List.mem_singleton.mp h]
        intro c h_c
        rw [List.mem_singleton.mp h_c]
        simpa using h_x
      · rename_i first rest h_parts
        obtain rfl | h := List.mem_cons.mp h
        · intro c h_c
          obtain rfl | h_c := List.mem_cons.mp h_c
          · simpa using h_x
          · exact ih (h_parts ▸ List.mem_cons_self) c h_c
        · exact ih (h_parts ▸ List.mem_cons_of_mem first h)

theorem isBase_baseName (archiveName : ArchiveName) (s : String) :
    IsBase (baseName archiveName s) := by
  rw [baseName, List.getLastD_eq_getLast?]
  cases h_last : ((JsText.splitWhere isSlash s).filter (· ≠ "")).getLast? with
  | none =>
    refine ⟨archiveName.nonempty, fun h_mem => ?_⟩
    have h_plain := List.any_eq_false.mp archiveName.plain '/' h_mem
    exact h_plain rfl
  | some base =>
    obtain ⟨h_part, h_ne⟩ := List.mem_filter.mp (List.mem_of_getLast? h_last)
    refine ⟨by simpa using h_ne, fun h_mem => ?_⟩
    obtain ⟨part, h_chars, rfl⟩ := List.mem_map.mp h_part
    rw [Option.getD_some, String.toList_ofList] at h_mem
    have h_not := not_sep_of_mem_splitWhereChars h_chars '/' h_mem
    cases h_not

theorem lookup_of_lstat (h : d.lstat p = some (location, node)) :
    d.tree.lookup location = some node := by
  rw [Disk.lstat] at h
  split at h
  · cases h
    rfl
  · split at h
    · obtain ⟨n, h_n, h_eq⟩ := Option.map_eq_some_iff.mp h
      cases h_eq
      exact h_n
    · cases h

/-- The names on the way to a regular file are names. -/
theorem isName_of_fileAt {es : LinkTree α} (h : es.Named IsName) (h_distinct : es.Distinct)
    {r : Path} {leaf : Leaf α} (h_at : es.fileAt r = some leaf) : ∀ n ∈ r, IsName n :=
  h.of_mem_files ((Folder.mem_files h_distinct).mpr h_at)

theorem fileAt_below {es : LinkTree α} (h : d.tree.lookup location = some (.folder es)) (r : Path) :
    d.tree.fileAt (location ++ r) = es.fileAt r := by
  rw [Folder.fileAt, Folder.lookup_append_folder r h, Folder.fileAt]

theorem fileAt_file_below {leaf : Leaf α} (h : d.tree.lookup location = some (.file leaf)) {r : Path}
    {a : α} (h_at : d.tree.fileAt (location ++ r) = some (.regular a)) :
    r = [] ∧ leaf = .regular a := by
  by_cases h_r : r = []
  · subst h_r
    rw [List.append_nil, Folder.fileAt, h] at h_at
    cases h_at
    exact ⟨rfl, rfl⟩
  · rw [Folder.fileAt, Folder.lookup_append_file h h_r] at h_at
    cases h_at

theorem mem_walk {es : LinkTree α} (h_distinct : es.Distinct) {rel : String} :
    e ∈ walk location rel es ↔ ∃ r a, es.fileAt r = some (.regular a) ∧
      e = ⟨location ++ r, r.foldl join rel, a⟩ := by
  rw [walk_eq, List.mem_filterMap]
  constructor
  · rintro ⟨⟨r, leaf⟩, h_mem, h_eq⟩
    obtain ⟨a, h_a, rfl⟩ := Option.map_eq_some_iff.mp h_eq
    cases leaf with
    | regular b =>
      cases h_a
      exact ⟨r, a, (Folder.mem_files h_distinct).mp h_mem, rfl⟩
    | link target => cases h_a
  · rintro ⟨r, a, h_at, rfl⟩
    exact ⟨(r, .regular a), (Folder.mem_files h_distinct).mpr h_at, rfl⟩

/-- The entries of a selection are the files at or below it. -/
theorem mem_entriesOf : e ∈ entriesOf d serverId archiveName s ↔
    ∃ r, Under d serverId s r e.location e.bytes ∧ (∀ n ∈ r, IsName n) ∧
      e.archiveRelPath = "/".intercalate (shown (baseName archiveName s) r) := by
  rw [entriesOf]
  constructor
  · intro h
    split at h
    · rename_i location a h_stat
      have h_at := lookup_of_lstat (Option.bind_eq_some_iff.mp h_stat).choose_spec.2
      rw [List.mem_singleton.mp h]
      refine ⟨[], ⟨location, _, h_stat, (List.append_nil location).symm, ?_⟩,
        fun _ h_n => (by cases h_n), ?_⟩
      · rw [Folder.fileAt, h_at]
      · rw [shown, if_pos rfl, String.intercalate_singleton]
    · rename_i location es h_stat
      have h_at := lookup_of_lstat (Option.bind_eq_some_iff.mp h_stat).choose_spec.2
      have h_distinct := d.distinct.lookup h_at
      obtain ⟨r, a, h_r, rfl⟩ := (mem_walk h_distinct).mp h
      have h_names := isName_of_fileAt (d.named.lookup h_at) h_distinct h_r
      exact ⟨r, ⟨location, _, h_stat, rfl, by rw [fileAt_below h_at, h_r]⟩, h_names,
        foldl_join_base (isBase_baseName archiveName s) h_names⟩
    · cases h
  · rintro ⟨r, ⟨location, node, h_stat, h_f, h_at⟩, h_names, h_name⟩
    have h_node := lookup_of_lstat (Option.bind_eq_some_iff.mp h_stat).choose_spec.2
    rw [h_stat]
    rw [h_f] at h_at
    cases node with
    | file leaf =>
      obtain ⟨rfl, rfl⟩ := fileAt_file_below h_node h_at
      rw [shown, if_pos rfl, String.intercalate_singleton] at h_name
      rw [List.append_nil] at h_f
      rw [← h_f, ← h_name]
      exact List.mem_singleton_self e
    | folder es =>
      rw [fileAt_below h_node] at h_at
      refine (mem_walk (d.distinct.lookup h_node)).mpr ⟨r, e.bytes, h_at, ?_⟩
      rw [foldl_join_base (isBase_baseName archiveName s) h_names, ← h_name, ← h_f]

/-- Below one selection files and names tell entries apart. -/
theorem pairwise_entriesOf : (entriesOf d serverId archiveName s).Pairwise fun e e' =>
    e.location ≠ e'.location ∧ e.archiveRelPath ≠ e'.archiveRelPath := by
  rw [entriesOf]
  split
  · exact List.pairwise_singleton _ _
  · rename_i location es h_stat
    have h_at := lookup_of_lstat (Option.bind_eq_some_iff.mp h_stat).choose_spec.2
    have h_distinct := d.distinct.lookup h_at
    have h_named := d.named.lookup h_at
    have h_base := isBase_baseName archiveName s
    have h_files : es.files.Pairwise fun x y => x.1 ≠ y.1 :=
      List.pairwise_map.mp (Folder.nodup_files h_distinct)
    rw [walk_eq, List.pairwise_filterMap]
    refine h_files.imp_of_mem fun {x y} h_x h_y h_ne e h_e e' h_e' => ?_
    obtain ⟨a, -, rfl⟩ := Option.map_eq_some_iff.mp h_e
    obtain ⟨b, -, rfl⟩ := Option.map_eq_some_iff.mp h_e'
    refine ⟨fun h_eq => h_ne (List.append_cancel_left h_eq), fun h_eq => ?_⟩
    have h_x_names := h_named.of_mem_files h_x
    have h_y_names := h_named.of_mem_files h_y
    have h_x_ne : x.1 ≠ [] := by
      obtain ⟨n, r, h_r, -⟩ := Folder.head_of_mem_files h_x
      rw [h_r]
      exact List.cons_ne_nil n r
    have h_y_ne : y.1 ≠ [] := by
      obtain ⟨n, r, h_r, -⟩ := Folder.head_of_mem_files h_y
      rw [h_r]
      exact List.cons_ne_nil n r
    have h_shown : "/".intercalate (shown (baseName archiveName s) x.1) =
        "/".intercalate (shown (baseName archiveName s) y.1) := by
      rw [← foldl_join_base h_base h_x_names, ← foldl_join_base h_base h_y_names]
      exact h_eq
    exact h_ne (shown_below h_x_ne h_y_ne
      ((shown_injective h_base h_base h_x_names h_y_names).mp h_shown))
  · exact List.Pairwise.nil

end Entries

/-! ## Accepted requests -/

section Accepted

variable {α : Type} {zip : Zip α} {d : Disk α} {torn : α} {serverId destPath : String}
  {paths : List String} {archiveName : ArchiveName} {result : Zipped zip} {s k k' : String}

theorem covers_iff : covers d serverId s k = true ↔ ∃ p q,
    getSafeServerPath d.cwd serverId s = some p ∧ getSafeServerPath d.cwd serverId k = some q ∧
      d.isDirectory p = true ∧ q ≠ p ∧ isInside p q = true := by
  rw [covers]
  split
  · rename_i p q h_p h_q
    simp only [h_p, h_q, Option.some.injEq, Bool.and_eq_true, decide_eq_true_eq, and_assoc]
    exact ⟨fun h => ⟨p, q, rfl, rfl, h⟩, fun ⟨_, _, h_p', h_q', h⟩ => h_p' ▸ h_q' ▸ h⟩
  · rename_i h_none
    refine ⟨fun h => (by cases h), fun ⟨p, q, h_p, h_q, _⟩ => absurd h_q (h_none p q h_p)⟩

theorem noDots_safe {p : Path} (h : getSafeServerPath d.cwd serverId s = some p) : ".." ∉ p := by
  have h_base : ".." ∉ serverBase d.cwd serverId := by
    rw [serverBase, resolve]
    refine dots_not_mem_resolveFrom ?_ _
    split
    · exact List.not_mem_nil
    · exact d.noDots
  simp only [getSafeServerPath] at h
  split at h
  · cases h
  · split at h
    · cases h
      rw [resolveUnder]
      split
      · refine fun h_mem => ?_
        obtain h_mem | h_mem := List.mem_append.mp h_mem
        · exact h_base h_mem
        · exact dots_not_mem_resolveFrom List.not_mem_nil _ h_mem
      · exact dots_not_mem_resolveFrom h_base _
    · cases h

/-- A folder above a folder above a selection is above it. -/
theorem covers_trans (h : covers d serverId s k = true) (h' : covers d serverId k k' = true) :
    covers d serverId s k' = true := by
  obtain ⟨p, q, h_p, h_q, h_dir, h_ne, h_inside⟩ := covers_iff.mp h
  obtain ⟨q', p', h_q', h_p', -, h_ne', h_inside'⟩ := covers_iff.mp h'
  rw [h_q] at h_q'
  cases h_q'
  have h_pre := prefix_of_isInside h_inside
  have h_pre' := prefix_of_isInside h_inside'
  refine covers_iff.mpr ⟨p, p', h_p, h_p', h_dir, fun h_eq => ?_,
    isInside_of_prefix (noDots_safe h_p') (h_pre.trans h_pre')⟩
  rw [h_eq] at h_pre'
  exact h_ne (h_pre'.eq_of_length (Nat.le_antisymm h_pre'.length_le h_pre.length_le))

theorem includeSource_ok {included out : List String}
    (h : includeSource d serverId included s = .ok out) :
    out = Selection.take (covers d serverId) included s := by
  obtain ⟨p, -, h⟩ := Fallible.bind_eq_ok.mp h
  split at h
  · cases h
  · split at h
    · cases h
    · rw [Selection.take]
      split at h
      · rename_i h_any
        cases h
        exact (if_pos h_any).symm
      · rename_i h_any
        cases h
        exact (if_neg h_any).symm

theorem foldlM_includeSource {srcs included out : List String}
    (h : srcs.foldlM (includeSource d serverId) included = .ok out) :
    out = srcs.foldl (Selection.take (covers d serverId)) included := by
  induction srcs generalizing included with
  | nil =>
    cases h
    rfl
  | cons src srcs ih =>
    rw [List.foldlM_cons] at h
    obtain ⟨next, h_next, h⟩ := Fallible.bind_eq_ok.mp h
    rw [List.foldl_cons, ← includeSource_ok h_next]
    exact ih h

theorem nodup_eraseDups (xs : List String) : xs.eraseDups.Nodup := by
  induction h_len : xs.length using Nat.strong_induction_on generalizing xs with
  | _ n ih =>
    cases xs with
    | nil => exact List.nodup_nil
    | cons x xs =>
      rw [List.eraseDups_cons, List.nodup_cons]
      refine ⟨fun h_mem => ?_, ih _ ?_ _ rfl⟩
      · have h_x := (List.mem_filter.mp (List.mem_eraseDups.mp h_mem)).2
        simp at h_x
      · rw [← h_len]
        exact Nat.lt_succ_of_le (List.length_filter_le _ xs)

theorem nodup_sources (paths : List String) : (sources paths).Nodup := nodup_eraseDups _

theorem mem_sources : s ∈ sources paths ↔ ∃ p ∈ paths, normalize p = s := by
  rw [sources, List.mem_eraseDups, List.mem_map]

/-- The sources that are walked are the outermost ones. -/
theorem sourcesToInclude_spec {included : List String}
    (h : sourcesToInclude d serverId paths = .ok included) :
    included.Nodup ∧ ∀ s, s ∈ included ↔ Outermost d serverId paths s := by
  have h_sorted : (sortedSources paths).Nodup :=
    (Selection.perm_byKey _ _).nodup_iff.mpr (nodup_sources paths)
  have h_eq : included = Selection.uncovered (covers d serverId) (sortedSources paths) :=
    foldlM_includeSource h
  have h_trans : ∀ a b c, covers d serverId a b = true → covers d serverId b c = true →
      covers d serverId a c = true := fun a b c => covers_trans
  rw [h_eq]
  refine ⟨h_sorted.sublist (Selection.uncovered_sublist _ _), fun s => ?_⟩
  rw [Selection.mem_uncovered h_sorted h_trans, Outermost, sortedSources,
    (Selection.perm_byKey _ _).mem_iff]
  refine and_congr_right fun h_s => ?_
  simp only [Selection.precedes_byKey (nodup_sources paths)]
  exact ⟨fun h_none e h_e h_before => h_none e ⟨h_e, h_s, h_before⟩,
    fun h_none e ⟨h_e, _, h_before⟩ => h_none e h_e h_before⟩

theorem safePath_ok {requested : String} {p : Path} (h : d.safePath serverId requested = .ok p) :
    getSafeServerPath d.cwd serverId requested = some p := by
  rw [Disk.safePath] at h
  split at h
  · rename_i h_some
    cases h
    exact h_some
  · split at h <;> cases h

/-- What an accepted request packs. -/
theorem createZipArchive_ok
    (h : createZipArchive zip d torn serverId paths destPath archiveName = .ok result) :
    ∃ p included, getSafeServerPath d.cwd serverId (join destPath (archiveName.text ++ ".zip")) =
        some p ∧ sourcesToInclude d serverId paths = .ok included ∧
      result.files = (included.flatMap (entriesOf d serverId archiveName)).map Entry.location ∧
      zip.read result.archive = (included.flatMap (entriesOf d serverId archiveName)).map
        (readAs (d.overwritten (partPath p)) torn) := by
  simp only [createZipArchive] at h
  split at h
  · cases h
  · obtain ⟨dest, -, h⟩ := Fallible.bind_eq_ok.mp h
    split at h
    · cases h
    · split at h
      · cases h
      · obtain ⟨p, h_p, h⟩ := Fallible.bind_eq_ok.mp h
        split at h
        · cases h
        · obtain ⟨included, h_included, h⟩ := Fallible.bind_eq_ok.mp h
          split at h
          · cases h
          · split at h
            · cases h
            · split at h
              · cases h
              · rename_i archive h_write
                cases h
                exact ⟨p, included, safePath_ok h_p, h_included, rfl,
                  zip.read_write _ _ h_write⟩

/-- A selected path and its normal form are the same selection. -/
theorem under_normalize {r f : Path} {a : α} :
    Under d serverId (normalize s) r f a ↔ Under d serverId s r f a := by
  rw [Under, Under, getSafeServerPath_normalize]

theorem selected_iff {f : Path} :
    (∃ p ∈ paths, ∃ r a, Under d serverId p r f a) ↔
      ∃ s ∈ sources paths, ∃ r a, Under d serverId s r f a := by
  constructor
  · rintro ⟨p, h_p, r, a, h_under⟩
    exact ⟨normalize p, mem_sources.mpr ⟨p, h_p, rfl⟩, r, a, under_normalize.mpr h_under⟩
  · rintro ⟨s, h_s, r, a, h_under⟩
    obtain ⟨p, h_p, rfl⟩ := mem_sources.mp h_s
    exact ⟨p, h_p, r, a, under_normalize.mp h_under⟩

/-- A file has one content. -/
theorem Under.bytes_eq {r r' f : Path} {a a' : α} (h : Under d serverId k r f a)
    (h' : Under d serverId k' r' f a') : a = a' := by
  obtain ⟨_, _, -, -, h_at⟩ := h
  obtain ⟨_, _, -, -, h_at'⟩ := h'
  rw [h_at] at h_at'
  cases h_at'
  rfl

theorem isName_of_under {r f : Path} {a : α} (h : Under d serverId s r f a) : ∀ n ∈ r, IsName n := by
  obtain ⟨location, node, h_stat, rfl, h_at⟩ := h
  have h_node := lookup_of_lstat (Option.bind_eq_some_iff.mp h_stat).choose_spec.2
  cases node with
  | file leaf =>
    obtain ⟨rfl, -⟩ := fileAt_file_below h_node h_at
    exact fun _ h_n => by cases h_n
  | folder es =>
    rw [fileAt_below h_node] at h_at
    exact isName_of_fileAt (d.named.lookup h_node) (d.distinct.lookup h_node) h_at

/-- Every file below a selection gives an entry of it. -/
theorem entry_of_under {r f : Path} {a : α} (h : Under d serverId s r f a) :
    (⟨f, "/".intercalate (shown (baseName archiveName s) r), a⟩ : Entry α) ∈
      entriesOf d serverId archiveName s :=
  mem_entriesOf.mpr ⟨r, h, isName_of_under h, rfl⟩

/-- A key tells all entries apart if it tells those of two selections apart. -/
theorem pairwise_entries {β : Type} (archiveName : ArchiveName) (key : Entry α → β) {included : List String}
    (h_nodup : included.Nodup) (h_outer : ∀ s, s ∈ included ↔ Outermost d serverId paths s)
    (h_below : ∀ s, (entriesOf d serverId archiveName s).Pairwise fun e e' => key e ≠ key e') :
    ((included.flatMap (entriesOf d serverId archiveName)).map key).Nodup ↔
      ∀ k k', Outermost d serverId paths k → Outermost d serverId paths k' → k ≠ k' →
        ∀ e ∈ entriesOf d serverId archiveName k, ∀ e' ∈ entriesOf d serverId archiveName k',
          key e ≠ key e' := by
  rw [List.Nodup, List.pairwise_map, List.pairwise_flatMap]
  constructor
  · rintro ⟨-, h_apart⟩ k k' h_k h_k' h_ne
    have : Std.Symm fun k k' => ∀ e ∈ entriesOf d serverId archiveName k,
        ∀ e' ∈ entriesOf d serverId archiveName k', key e ≠ key e' :=
      ⟨fun a b h_ab e h_e e' h_e' => (h_ab e' h_e' e h_e).symm⟩
    exact h_apart.forall ((h_outer k).mpr h_k) ((h_outer k').mpr h_k') h_ne
  · intro h_apart
    refine ⟨fun s _ => h_below s, h_nodup.imp_of_mem fun h_k h_k' h_ne => ?_⟩
    exact h_apart _ _ ((h_outer _).mp h_k) ((h_outer _).mp h_k') h_ne

/-- An accepted request loses nothing exactly if its selections are separate. -/
theorem losesNothing_iff
    (h : createZipArchive zip d torn serverId paths destPath archiveName = .ok result) :
    LosesNothing d serverId paths result ↔
      Separate d serverId archiveName paths destPath torn := by
  obtain ⟨p, included, h_p, h_included, h_files, h_read⟩ := createZipArchive_ok h
  obtain ⟨h_nodup, h_outer⟩ := sourcesToInclude_spec h_included
  have h_once := pairwise_entries archiveName Entry.location h_nodup h_outer fun s =>
    pairwise_entriesOf.imp And.left
  rw [← h_files] at h_once
  have h_names : (zip.read result.archive).map Prod.fst =
      (included.flatMap (entriesOf d serverId archiveName)).map Entry.archiveRelPath := by
    rw [h_read, List.map_map]
    rfl
  have h_named := pairwise_entries archiveName Entry.archiveRelPath h_nodup h_outer fun s =>
    pairwise_entriesOf.imp And.right
  rw [← h_names] at h_named
  have h_mem : ∀ f, f ∈ result.files ↔
      ∃ k, Outermost d serverId paths k ∧ ∃ r a, Under d serverId k r f a := fun f => by
    rw [h_files, List.mem_map]
    constructor
    · rintro ⟨e, h_e, rfl⟩
      obtain ⟨k, h_k, h_e⟩ := List.mem_flatMap.mp h_e
      obtain ⟨r, h_under, -⟩ := mem_entriesOf.mp h_e
      exact ⟨k, (h_outer k).mp h_k, r, e.bytes, h_under⟩
    · rintro ⟨k, h_k, r, a, h_under⟩
      exact ⟨_, List.mem_flatMap.mpr ⟨k, (h_outer k).mpr h_k, entry_of_under h_under⟩, rfl⟩
  have h_bytes : List.Forall₂ (fun f e => d.tree.fileAt f = some (.regular e.2)) result.files
      (zip.read result.archive) ↔ ∀ k, Outermost d serverId paths k → ∀ r f a,
        Under d serverId k r f a → d.overwritten (partPath p) = some f → a = torn := by
    rw [h_files, h_read, List.forall₂_map_left_iff, List.forall₂_map_right_iff, List.forall₂_same]
    constructor
    · intro h_all k h_k r f a h_under h_over
      have h_e := h_all _ (List.mem_flatMap.mpr ⟨k, (h_outer k).mpr h_k, entry_of_under h_under⟩)
      obtain ⟨_, _, -, -, h_at⟩ := h_under
      rw [readAs, if_pos h_over, h_at] at h_e
      have h_leaf : some (Leaf.regular a) = some (.regular torn) := h_e
      cases h_leaf
      rfl
    · intro h_all e h_e
      obtain ⟨k, h_k, h_e⟩ := List.mem_flatMap.mp h_e
      obtain ⟨r, h_under, -⟩ := mem_entriesOf.mp h_e
      have h_torn := h_all k ((h_outer k).mp h_k) r _ _ h_under
      obtain ⟨_, _, -, -, h_at⟩ := h_under
      rw [readAs]
      split
      · rename_i h_over
        rw [h_at, h_torn h_over]
      · exact h_at
  constructor
  · intro h_loses
    have h_reached : ∀ s ∈ sources paths, ∀ r f a, Under d serverId s r f a →
        ∃ k, Outermost d serverId paths k ∧ ∃ r', Under d serverId k r' f a := by
      intro s h_s r f a h_under
      have h_f := (h_loses.all f).mpr (selected_iff.mpr ⟨s, h_s, r, a, h_under⟩)
      obtain ⟨k, h_k, r', a', h_under'⟩ := (h_mem f).mp h_f
      exact ⟨k, h_k, r', h_under.bytes_eq h_under' ▸ h_under'⟩
    refine ⟨h_reached, ?_, ?_, ?_⟩
    · intro k k' h_k h_k' h_ne r r' f a a' h_under h_under'
      exact h_once.mp h_loses.once k k' h_k h_k' h_ne _ (entry_of_under h_under) _
        (entry_of_under h_under') rfl
    · intro k k' h_k h_k' h_ne r r' f f' a a' h_under h_under' h_shown
      exact h_named.mp h_loses.named k k' h_k h_k' h_ne _ (entry_of_under h_under) _
        (entry_of_under h_under') (congrArg ("/".intercalate ·) h_shown)
    · intro s h_s r f a h_under p' h_p' h_over
      rw [h_p] at h_p'
      cases h_p'
      obtain ⟨k, h_k, r', h_under'⟩ := h_reached s h_s r f a h_under
      exact h_bytes.mp h_loses.bytes k h_k r' f a h_under' h_over
  · intro h_separate
    refine ⟨h_once.mpr ?_, fun f => ?_, h_named.mpr ?_, h_bytes.mpr ?_⟩
    · intro k k' h_k h_k' h_ne e h_e e' h_e' h_eq
      obtain ⟨r, h_under, -⟩ := mem_entriesOf.mp h_e
      obtain ⟨r', h_under', -⟩ := mem_entriesOf.mp h_e'
      rw [← h_eq] at h_under'
      exact h_separate.apart k k' h_k h_k' h_ne _ _ _ _ _ h_under h_under'
    · rw [h_mem, selected_iff]
      constructor
      · rintro ⟨k, h_k, r, a, h_under⟩
        exact ⟨k, h_k.1, r, a, h_under⟩
      · rintro ⟨s, h_s, r, a, h_under⟩
        obtain ⟨k, h_k, r', h_under'⟩ := h_separate.reached s h_s r f a h_under
        exact ⟨k, h_k, r', a, h_under'⟩
    · intro k k' h_k h_k' h_ne e h_e e' h_e' h_eq
      obtain ⟨r, h_under, h_r, h_name⟩ := mem_entriesOf.mp h_e
      obtain ⟨r', h_under', h_r', h_name'⟩ := mem_entriesOf.mp h_e'
      rw [h_name, h_name'] at h_eq
      exact h_separate.named k k' h_k h_k' h_ne _ _ _ _ _ _ h_under h_under'
        ((shown_injective (isBase_baseName _ _) (isBase_baseName _ _) h_r h_r').mp h_eq)
    · intro k h_k r f a h_under h_over
      exact h_separate.whole k h_k.1 r f a h_under p h_p h_over

end Accepted

/-! ## Two files of one name -/

/-- An archive that is the list of its entries. -/
def listing : Zip (List UInt8) where
  Archive := List (String × List UInt8)
  write := .ok
  read := id
  read_write _ _ h := by
    cases h
    rfl

/-- The server folder of `srv` with a world and the settings of two plugins. -/
def serverDisk : Disk (List UInt8) where
  tree := .folder "servers" (.folder "srv" (.folder "a" (.file "config.yml" (.regular [1]) .empty)
    (.folder "b" (.file "config.yml" (.regular [2]) .empty)
      (.folder "world" (.file "level.dat" (.regular [3]) .empty) .empty))) .empty) .empty
  limit := 40
  cwd := []
  distinct := by simp [Folder.Distinct, Folder.names]
  named := by
    simp only [Folder.Named, and_true]
    refine ⟨?_, ?_, ?_, ?_, ?_, ?_, ?_, ?_⟩
    all_goals exact ⟨by decide, by decide, by decide, by decide⟩
  noDots := List.not_mem_nil

def backup : ArchiveName where
  text := "backup"
  nonempty := by decide
  plain := rfl

/-- The settings of both plugins. -/
def twoConfigs : List String := ["/a/config.yml", "/b/config.yml"]

theorem equal_names_collide :
    ¬ ∀ (α : Type) (zip : Zip α) (d : Disk α) (torn : α) (serverId destPath : String)
      (paths : List String) (archiveName : ArchiveName) (result : Zipped zip),
      createZipArchive zip d torn serverId paths destPath archiveName = .ok result →
        LosesNothing d serverId paths result := by
  intro h
  have h_loses := h _ listing serverDisk [] "srv" "" twoConfigs backup
    ⟨[("config.yml", [1]), ("config.yml", [2])],
      [["servers", "srv", "a", "config.yml"], ["servers", "srv", "b", "config.yml"]]⟩ rfl
  have h_nodup : ["config.yml", "config.yml"].Nodup := h_loses.named
  exact absurd h_nodup (by decide)

/-! ## Two folders -/

theorem head_shown {base : String} (h : base ≠ ".") (r : Path) : (shown base r).head? = some base := by
  rw [shown]
  split
  · rfl
  · rfl

/-- A world and the folder of a plugin. -/
def twoFolders : List String := ["/world", "/a"]

theorem separate_twoFolders : Separate serverDisk "srv" backup twoFolders "" [] := by
  have h_sources : ∀ s, s ∈ sources twoFolders → s = "/world" ∨ s = "/a" := by
    have h_eq : sources twoFolders = ["/world", "/a"] := rfl
    rw [h_eq]
    simp
  have h_stat : ∀ s, s = "/world" ∨ s = "/a" → ∃ n es,
      (getSafeServerPath [] "srv" s).bind serverDisk.lstat =
        some (["servers", "srv", n], .folder es) ∧ baseName backup s = n ∧ n ≠ "." ∧ s = "/" ++ n := by
    rintro s (rfl | rfl)
    · exact ⟨"world", _, rfl, rfl, by decide, rfl⟩
    · exact ⟨"a", _, rfl, rfl, by decide, rfl⟩
  have h_under : ∀ {s r f a}, s ∈ sources twoFolders → Under serverDisk "srv" s r f a →
      f = ["servers", "srv", baseName backup s] ++ r ∧ baseName backup s ≠ "." ∧
        s = "/" ++ baseName backup s := by
    rintro s r f a h_s ⟨location, node, h_location, h_f, -⟩
    obtain ⟨n, es, h_n, h_base, h_dot, h_text⟩ := h_stat s (h_sources s h_s)
    rw [h_base]
    refine ⟨?_, h_dot, h_text⟩
    have h_eq : some (location, node) = some (["servers", "srv", n], .folder es) :=
      h_location.symm.trans h_n
    cases h_eq
    exact h_f
  have h_covers : ∀ e s, e ∈ sources twoFolders → s ∈ sources twoFolders →
      covers serverDisk "srv" e s = false := by
    intro e s h_e h_s
    obtain rfl | rfl := h_sources e h_e <;> obtain rfl | rfl := h_sources s h_s <;> rfl
  constructor
  · intro s h_s r f a h_r
    exact ⟨s, ⟨h_s, fun e h_e _ => h_covers e s h_e h_s⟩, r, h_r⟩
  · intro k k' h_k h_k' h_ne r r' f a a' h_f h_f'
    obtain ⟨h_eq, -, h_text⟩ := h_under h_k.1 h_f
    obtain ⟨h_eq', -, h_text'⟩ := h_under h_k'.1 h_f'
    rw [h_eq] at h_eq'
    have h_base : some (baseName backup k) = some (baseName backup k') :=
      congrArg (fun p : Path => p[2]?) h_eq'
    exact h_ne (by rw [h_text, h_text', Option.some.inj h_base])
  · intro k k' h_k h_k' h_ne r r' f f' a a' h_f h_f' h_shown
    obtain ⟨-, h_dot, h_text⟩ := h_under h_k.1 h_f
    obtain ⟨-, h_dot', h_text'⟩ := h_under h_k'.1 h_f'
    have h_head := congrArg List.head? h_shown
    rw [head_shown h_dot, head_shown h_dot'] at h_head
    exact h_ne (by rw [h_text, h_text', Option.some.inj h_head])
  · intro s _ r f a _ p h_p h_over
    have h_part : p = ["servers", "srv", "backup.zip"] := by
      have h_eq : some p = some ["servers", "srv", "backup.zip"] := h_p.symm.trans rfl
      cases h_eq
      rfl
    rw [h_part] at h_over
    cases h_over

/-- Nothing is lost of two folders with different names. -/
theorem losesNothing_twoFolders : ∃ result : Zipped listing,
    createZipArchive listing serverDisk [] "srv" twoFolders "" backup = .ok result ∧
      result.archive = [("a/config.yml", [1]), ("world/level.dat", [3])] ∧
      LosesNothing serverDisk "srv" twoFolders result := by
  have h_ok : createZipArchive listing serverDisk [] "srv" twoFolders "" backup =
      .ok ⟨[("a/config.yml", [1]), ("world/level.dat", [3])],
        [["servers", "srv", "a", "config.yml"], ["servers", "srv", "world", "level.dat"]]⟩ := rfl
  exact ⟨_, h_ok, rfl, (losesNothing_iff h_ok).mpr separate_twoFolders⟩

end Kubek.Files
