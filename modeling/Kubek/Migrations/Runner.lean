/-
  Kubek.Migrations.Runner

  Starts of the panel on one database (migrations/migration-runner.ts), over all the builds
  it is ever started with.

  A build knows the first migrations of one history. The tables are an arbitrary type; a
  transaction that fails or is cut off leaves them as they were, with the version. A copy of
  the database is a file that the clock of the machine dates later than the copies there are.
  What is printed is left out.
-/

import Mathlib.Data.List.Sort
import Kubek.Lib.Machine

namespace Kubek.Migrations.Runner

open Transition (Machine)

def BACKUPS_TO_KEEP : Nat := 3

/-- `Migration`. -/
structure Migration (σ : Type) where
  version : Nat
  name : String
  touches : List String
  up : σ → Except String σ

/-- What a start finds outside the history: whether there are tables of users, the rows of a
    table that break its foreign keys, and the text of a moment in a file name. -/
structure Env (σ : Type) where
  hasUserTables : σ → Bool
  violations : σ → String → Nat
  stamp : Nat → String

/-- The tables, with `PRAGMA user_version`. -/
structure Database (σ : Type) where
  version : Nat
  content : σ

/-- A file next to the database; a copy of it holds what it was. -/
structure File (σ : Type) where
  name : String
  mtime : Nat
  copy : Option (Database σ)

section Runner

variable {σ : Type} (env : Env σ)

/-- `assertForeignKeys`, without the first broken row. -/
def assertForeignKeys (content : σ) : List String → Except String Unit
  | [] => .ok ()
  | table :: tables =>
      let n := env.violations content table
      if 0 < n then .error (table ++ ": " ++ toString n ++ " foreign key violations")
      else assertForeignKeys content tables

/-- One pass of the loop in the transaction. -/
def applyMigration (db : Database σ) (m : Migration σ) : Except String (Database σ) := do
  let content ← m.up db.content
  assertForeignKeys env content m.touches
  .ok { version := m.version, content }

def backupPrefix : String := "db.sql.bak-"

/-- The name begins like a copy of the database. -/
def isBackup (f : File σ) : Bool := backupPrefix.toList.isPrefixOf f.name.toList

/-- The copies beyond the last few, by the date of the file. -/
def oldBackups (files : List (File σ)) : List (File σ) :=
  ((files.filter isBackup).insertionSort fun a b => b.mtime ≤ a.mtime).drop BACKUPS_TO_KEEP

/-- `backupDatabase`: the files afterwards and the new one. `VACUUM INTO` refuses a name that
    is taken; what cannot be removed is `stuck`. -/
def backupDatabase (files : List (File σ)) (db : Database σ) (now : Nat) (stuck : List String) :
    Option (List (File σ) × File σ) :=
  let target := backupPrefix ++ "v" ++ toString db.version ++ "-" ++ env.stamp now
  if files.any (·.name == target) then none
  else
    let file := { name := target, mtime := now, copy := some db }
    let files := files ++ [file]
    let old := oldBackups files
    some (files.filter fun f => !old.any (·.name == f.name) || stuck.contains f.name, file)

/-- How a start ends: with an error, with the schema of the build, or the process is killed
    before the transaction is through. -/
inductive Ended
  | failed (error : String)
  | upToDate
  | killed
  deriving DecidableEq

/-- A start: the database and the files afterwards, the copy it made and how it ended. -/
structure Started (σ : Type) where
  db : Database σ
  files : List (File σ)
  copy : Option (File σ)
  ended : Ended

/-- `runMigrations` of a build with these migrations. -/
def runMigrations (migrations : List (Migration σ)) (db : Database σ) (files : List (File σ))
    (now : Nat) (stuck : List String) (killed : Bool) : Started σ :=
  let latest := (migrations.getLast?.map (·.version)).getD 0
  if latest < db.version then
    { db, files, copy := none
      ended := .failed ("Database schema v" ++ toString db.version ++
        " is newer than this Kubek build supports (v" ++ toString latest ++
        "). Update Kubek or restore a db.sql backup made before the upgrade") }
  else
    let pending := migrations.filter fun m => db.version < m.version
    if pending.isEmpty then { db, files, copy := none, ended := .upToDate }
    else
      let transaction (files : List (File σ)) (copy : Option (File σ)) : Started σ :=
        if killed then { db, files, copy, ended := .killed }
        else
          match pending.foldlM (applyMigration env) db with
          | .error error => { db, files, copy, ended := .failed error }
          | .ok db => { db, files, copy, ended := .upToDate }
      if env.hasUserTables db.content then
        match backupDatabase env files db now stuck with
        | none => { db, files, copy := none, ended := .failed "output file already exists" }
        | some (files, file) => transaction files (some file)
      else transaction files none

/-! ## Runs -/

/-- What was done to the tables. -/
inductive Action (σ : Type)
  | migrated (m : Migration σ)
  | used (change : σ → σ)

/-- The database with the files next to it, the build that is running, and the history: what
    was done to the tables and the copies that were made, the last one last. -/
structure Panel (σ : Type) where
  db : Database σ
  files : List (File σ)
  running : Option Nat
  trace : List (Action σ)
  copies : List (File σ)

inductive Event (σ : Type)
  | start (build : Nat) (now : Nat) (stuck : List String) (killed : Bool)
  | use (change : σ → σ)
  | stop

def step (history : List (Migration σ)) (s : Panel σ) : Event σ → Option (Panel σ)
  | .start build now stuck killed =>
      if s.running.isNone && decide (0 < build) && decide (build ≤ history.length) then
        let started := runMigrations env (history.take build) s.db s.files now stuck killed
        some
          { db := started.db
            files := started.files
            running := if started.ended = .upToDate then some build else none
            trace := if started.ended = .upToDate then
                s.trace ++ ((history.take build).filter fun m => s.db.version < m.version).map
                  .migrated
              else s.trace
            copies := s.copies ++ started.copy.toList }
      else none
  | .use change =>
      if s.running.isSome then
        some { s with
          db := { s.db with content := change s.db.content }
          trace := s.trace ++ [.used change] }
      else none
  | .stop => some { s with running := none }

/-- A copy is dated later than the ones there are. -/
def sound (s : Panel σ) : Event σ → Bool
  | .start _ now _ _ => s.files.all (fun f => !isBackup f || decide (f.mtime < now)) &&
      s.copies.all fun f => decide (f.mtime < now)
  | _ => true

/-- A new database, with some files next to it. -/
def start (content : σ) (files : List (File σ)) : Panel σ where
  db := { version := 0, content }
  files := files
  running := none
  trace := []
  copies := []

def panel (history : List (Migration σ)) (content : σ) (files : List (File σ)) :
    Machine (Panel σ) (Event σ) where
  init := (· = start content files)
  step := step env history

/-! ## What should have happened -/

/-- What an action makes of the tables; `none` where a migration would not go through. -/
def Action.apply (content : σ) : Action σ → Option σ
  | .migrated m => (m.up content).toOption
  | .used change => some (change content)

def Action.migration : Action σ → Option (Migration σ)
  | .migrated m => some m
  | .used _ => none

def replay (content : σ) (trace : List (Action σ)) : Option σ := trace.foldlM Action.apply content

/-- The migrations among the actions. -/
def applied (trace : List (Action σ)) : List (Migration σ) := trace.filterMap Action.migration

/-- The schema of a build. -/
def latestOf (history : List (Migration σ)) (build : Nat) : Nat :=
  ((history.take build).getLast?.map (·.version)).getD 0

/-! ## A start -/

section Start

variable {env} {db db' : Database σ} {files : List (File σ)} {history pending : List (Migration σ)}
  {now : Nat} {stuck : List String} {killed : Bool}

/-- What a start does to the files, and what to the database. -/
theorem runMigrations_cases (migrations : List (Migration σ)) :
    (((runMigrations env migrations db files now stuck killed).files = files ∧
        (runMigrations env migrations db files now stuck killed).copy = none) ∨
      ∃ file, backupDatabase env files db now stuck =
          some ((runMigrations env migrations db files now stuck killed).files, file) ∧
        (runMigrations env migrations db files now stuck killed).copy = some file) ∧
    (((runMigrations env migrations db files now stuck killed).ended ≠ .upToDate ∧
        (runMigrations env migrations db files now stuck killed).db = db) ∨
      ((runMigrations env migrations db files now stuck killed).ended = .upToDate ∧
        db.version ≤ (migrations.getLast?.map (·.version)).getD 0 ∧
        (migrations.filter fun m => db.version < m.version).foldlM (applyMigration env) db =
          .ok (runMigrations env migrations db files now stuck killed).db)) := by
  rw [runMigrations]
  dsimp only
  by_cases h_newer : (migrations.getLast?.map (·.version)).getD 0 < db.version
  · rw [if_pos h_newer]
    exact ⟨.inl ⟨rfl, rfl⟩, .inl ⟨fun h => (by cases h), rfl⟩⟩
  rw [if_neg h_newer]
  have h_latest := Nat.not_lt.mp h_newer
  by_cases h_none : (migrations.filter fun m => db.version < m.version).isEmpty = true
  · rw [if_pos h_none, List.isEmpty_iff.mp h_none]
    exact ⟨.inl ⟨rfl, rfl⟩, .inr ⟨rfl, h_latest, rfl⟩⟩
  rw [if_neg h_none]
  generalize (migrations.filter fun m => db.version < m.version) = pending at *
  cases h_tables : env.hasUserTables db.content with
  | false =>
    rw [if_neg Bool.false_ne_true]
    cases killed with
    | true => exact ⟨.inl ⟨rfl, rfl⟩, .inl ⟨fun h => (by cases h), rfl⟩⟩
    | false =>
      rw [if_neg Bool.false_ne_true]
      cases h_run : pending.foldlM (applyMigration env) db with
      | error error => exact ⟨.inl ⟨rfl, rfl⟩, .inl ⟨fun h => (by cases h), rfl⟩⟩
      | ok db' => exact ⟨.inl ⟨rfl, rfl⟩, .inr ⟨rfl, h_latest, rfl⟩⟩
  | true =>
    rw [if_pos rfl]
    cases h_copy : backupDatabase env files db now stuck with
    | none => exact ⟨.inl ⟨rfl, rfl⟩, .inl ⟨fun h => (by cases h), rfl⟩⟩
    | some made =>
      obtain ⟨files', file⟩ := made
      dsimp only
      cases killed with
      | true => exact ⟨.inr ⟨file, rfl, rfl⟩, .inl ⟨fun h => (by cases h), rfl⟩⟩
      | false =>
        rw [if_neg Bool.false_ne_true]
        cases h_run : pending.foldlM (applyMigration env) db with
        | error error => exact ⟨.inr ⟨file, rfl, rfl⟩, .inl ⟨fun h => (by cases h), rfl⟩⟩
        | ok db' => exact ⟨.inr ⟨file, rfl, rfl⟩, .inr ⟨rfl, h_latest, rfl⟩⟩

/-- A transaction that goes through is its migrations, one after the other. -/
theorem replay_of_foldlM (h : pending.foldlM (applyMigration env) db = .ok db') :
    replay db.content (pending.map .migrated) = some db'.content ∧
      db'.version = (pending.getLast?.map (·.version)).getD db.version := by
  induction pending generalizing db with
  | nil =>
    obtain rfl := Except.ok.inj h
    exact ⟨rfl, rfl⟩
  | cons m ms ih =>
    rw [List.foldlM_cons] at h
    cases h_up : m.up db.content with
    | error error =>
      rw [applyMigration, h_up] at h
      cases h
    | ok content =>
      cases h_keys : assertForeignKeys env content m.touches with
      | error error =>
        rw [applyMigration, h_up] at h
        dsimp only [bind, Except.bind] at h
        rw [h_keys] at h
        cases h
      | ok checked =>
        have h_step : applyMigration env db m = .ok { version := m.version, content } := by
          rw [applyMigration, h_up]
          dsimp only [bind, Except.bind]
          rw [h_keys]
        rw [h_step] at h
        obtain ⟨h_replay, h_version⟩ := ih h
        constructor
        · rw [replay, List.map_cons, List.foldlM_cons]
          show ((m.up db.content).toOption).bind _ = _
          rw [h_up]
          exact h_replay
        · rw [h_version]
          cases ms with
          | nil => rfl
          | cons m' ms => rw [List.getLast?_cons_cons]; rfl

theorem applied_append (trace more : List (Action σ)) :
    applied (trace ++ more) = applied trace ++ applied more :=
  List.filterMap_append

theorem applied_migrated (ms : List (Migration σ)) : applied (ms.map .migrated) = ms := by
  rw [applied, List.filterMap_map]
  exact List.filterMap_some

theorem replay_append (content : σ) (trace more : List (Action σ)) :
    replay content (trace ++ more) = (replay content trace).bind fun c => replay c more := by
  rw [replay, List.foldlM_append]
  rfl

end Start

/-! ## Versions in order -/

section Versions

variable {history : List (Migration σ)} {cur : Nat}

/-- A list of rising versions falls into those up to one and those behind it. -/
theorem filter_append_filter (h : history.Pairwise fun a b => a.version < b.version) :
    (history.filter fun m => m.version ≤ cur) ++ (history.filter fun m => cur < m.version) =
      history := by
  induction history with
  | nil => rfl
  | cons m ms ih =>
    obtain ⟨h_first, h_rest⟩ := List.pairwise_cons.mp h
    by_cases h_m : m.version ≤ cur
    · rw [List.filter_cons_of_pos (by simpa using h_m),
        List.filter_cons_of_neg (by simpa using h_m), List.cons_append, ih h_rest]
    · -- everything behind it is above, too
      have h_none : (ms.filter fun m => m.version ≤ cur) = [] := by
        rw [List.filter_eq_nil_iff]
        intro m' h_m'
        have := h_first m' h_m'
        simp only [decide_eq_true_eq]
        omega
      have h_all : (ms.filter fun m => cur < m.version) = ms := by
        rw [List.filter_eq_self]
        intro m' h_m'
        have := h_first m' h_m'
        simp only [decide_eq_true_eq]
        omega
      rw [List.filter_cons_of_neg (by simpa using h_m), List.filter_cons_of_pos
        (by simpa using h_m), h_none, h_all, List.nil_append]

/-- The migrations of a build are those up to its schema. -/
theorem filter_latestOf (h : history.Pairwise fun a b => a.version < b.version) {build : Nat}
    (h_pos : 0 < build) (h_build : build ≤ history.length) :
    (history.filter fun m => m.version ≤ latestOf history build) = history.take build := by
  obtain h_nil | ⟨front, last, h_front⟩ := List.eq_nil_or_concat (history.take build)
  · have h_length := congrArg List.length h_nil
    rw [List.length_take, List.length_nil] at h_length
    omega
  rw [List.concat_eq_append] at h_front
  have h_latest : latestOf history build = last.version := by
    rw [latestOf, h_front, List.getLast?_concat]
    rfl
  have h_split := List.take_append_drop build history
  rw [h_front] at h_split
  rw [← h_split, List.append_assoc, List.pairwise_append] at h
  obtain ⟨h_below, h_above⟩ := (⟨h.2.2, List.pairwise_append.mp h.2.1⟩ :
    (∀ a ∈ front, ∀ b ∈ [last] ++ history.drop build, a.version < b.version) ∧ _)
  rw [h_latest]
  conv_lhs => rw [← h_split]
  rw [h_front, List.filter_append]
  have h_front_all : ((front ++ [last]).filter fun m => m.version ≤ last.version) = front ++ [last] := by
    rw [List.filter_eq_self]
    intro m h_m
    simp only [decide_eq_true_eq]
    obtain h_m | h_m := List.mem_append.mp h_m
    · exact Nat.le_of_lt (h_below m h_m last List.mem_cons_self)
    · rw [List.mem_singleton.mp h_m]
  have h_drop_none : ((history.drop build).filter fun m => m.version ≤ last.version) = [] := by
    rw [List.filter_eq_nil_iff]
    intro m h_m
    have := h_above.2.2 last (List.mem_singleton_self _) m h_m
    simp only [decide_eq_true_eq]
    omega
  rw [h_front_all, h_drop_none, List.append_nil]

/-- Where the migrations above a version end. -/
theorem version_after (h : history.Pairwise fun a b => a.version < b.version)
    (h_cur : cur ≤ (history.getLast?.map (·.version)).getD 0) :
    ((history.filter fun m => cur < m.version).getLast?.map (·.version)).getD cur =
      (history.getLast?.map (·.version)).getD 0 := by
  obtain rfl | ⟨front, last, rfl⟩ := List.eq_nil_or_concat history
  · exact Nat.le_zero.mp h_cur
  · rw [List.concat_eq_append] at *
    rw [List.getLast?_concat] at h_cur ⊢
    rw [List.filter_append]
    by_cases h_last : cur < last.version
    · rw [List.filter_cons_of_pos (by simpa using h_last), List.filter_nil, List.getLast?_concat]
      rfl
    · -- then none of them is above it
      have h_none : (front.filter fun m => cur < m.version) = [] := by
        rw [List.filter_eq_nil_iff]
        intro m h_m
        have := (List.pairwise_append.mp h).2.2 m h_m last (List.mem_singleton_self _)
        simp only [decide_eq_true_eq]
        omega
      rw [h_none, List.filter_cons_of_neg (by simpa using h_last)]
      exact Nat.le_antisymm h_cur (Nat.not_lt.mp h_last)

end Versions

/-! ## Copies -/

section Copies

variable {env} {db : Database σ} {files files' copies : List (File σ)} {file f : File σ} {now : Nat}
  {stuck : List String}

/-- What making a copy does: one file more, dated now, and no file less but old copies. -/
theorem backup_spec (h : backupDatabase env files db now stuck = some (files', file)) :
    (∀ f ∈ files, f.name ≠ file.name) ∧ file.mtime = now ∧ file.copy = some db ∧
      isBackup file = true ∧
      files' = (files ++ [file]).filter fun f =>
        !(oldBackups (files ++ [file])).any (·.name == f.name) || stuck.contains f.name := by
  rw [backupDatabase] at h
  obtain ⟨h_free, h_eq⟩ := Option.ite_none_left_eq_some.mp h
  obtain ⟨rfl, rfl⟩ := Prod.mk.inj (Option.some.inj h_eq)
  refine ⟨fun f h_f h_name => h_free ?_, rfl, rfl, ?_, rfl⟩
  · exact List.any_eq_true.mpr ⟨f, h_f, beq_iff_eq.mpr h_name⟩
  · rw [isBackup, String.toList_append, String.toList_append, String.toList_append,
      List.append_assoc, List.append_assoc, List.isPrefixOf_iff_prefix]
    exact List.prefix_append _ _

/-- Whatever is among the copies beyond the last few has that many copies that are as new. -/
theorem newer_of_old (h_names : (files.map (·.name)).Nodup) (h : f ∈ oldBackups files) :
    ∃ newer : List (File σ), newer.length = BACKUPS_TO_KEEP ∧ newer.Nodup ∧
      ∀ g ∈ newer, g ∈ files ∧ isBackup g = true ∧ f.mtime ≤ g.mtime ∧ g ≠ f := by
  have h_sorted := List.pairwise_insertionSort (fun a b : File σ => b.mtime ≤ a.mtime)
    (files.filter isBackup)
  have h_perm := List.perm_insertionSort (fun a b : File σ => b.mtime ≤ a.mtime)
    (files.filter isBackup)
  have h_nodup : (files.filter isBackup).Nodup := (List.Nodup.of_map _ h_names).filter _
  rw [oldBackups] at h
  generalize (files.filter isBackup).insertionSort (fun a b : File σ => b.mtime ≤ a.mtime) = sorted
    at *
  have h_split := List.take_append_drop BACKUPS_TO_KEEP sorted
  have h_all := h_perm.nodup_iff.mpr h_nodup
  rw [← h_split, List.nodup_append] at h_all
  rw [← h_split, List.pairwise_append] at h_sorted
  refine ⟨sorted.take BACKUPS_TO_KEEP, ?_, h_all.1, fun g h_g => ?_⟩
  · rw [List.length_take]
    have h_pos := List.length_pos_of_mem h
    rw [List.length_drop] at h_pos
    omega
  · obtain ⟨h_file, h_backup⟩ := List.mem_filter.mp (h_perm.mem_iff.mp (List.mem_of_mem_take h_g))
    exact ⟨h_file, h_backup, h_sorted.2.2 g h_g f h, h_all.2.2 g h_g f h⟩

/-- Of copies whose dates rise, those that are as new as one of them stand behind it. -/
theorem mem_behind {front back : List (File σ)} {g : File σ}
    (h : (front ++ f :: back).Pairwise fun a b => a.mtime < b.mtime)
    (h_g : g ∈ front ++ f :: back) (h_new : f.mtime ≤ g.mtime) (h_ne : g ≠ f) : g ∈ back := by
  rw [List.pairwise_append] at h
  obtain h_g | h_g := List.mem_append.mp h_g
  · have := h.2.2 g h_g f List.mem_cons_self
    omega
  · obtain rfl | h_g := List.mem_cons.mp h_g
    · exact absurd rfl h_ne
    · exact h_g

/-- None of the last few copies is removed. -/
theorem not_old (h_names : (files.map (·.name)).Nodup)
    (h_dated : copies.Pairwise fun a b => a.mtime < b.mtime)
    (h_foreign : ∀ g ∈ files, isBackup g = true → g ∈ copies ∨ ∀ c ∈ copies, g.mtime < c.mtime)
    (h_last : f ∈ copies.drop (copies.length - BACKUPS_TO_KEEP)) : f ∉ oldBackups files := by
  intro h_old
  obtain ⟨newer, h_length, h_nodup, h_newer⟩ := newer_of_old h_names h_old
  obtain ⟨front, back, h_drop⟩ := List.append_of_mem h_last
  have h_split := List.take_append_drop (copies.length - BACKUPS_TO_KEEP) copies
  rw [h_drop, ← List.append_assoc] at h_split
  have h_mem : f ∈ copies := List.mem_of_mem_drop h_last
  have h_sub : newer ⊆ back := by
    intro g h_g
    obtain ⟨h_file, h_backup, h_new, h_ne⟩ := h_newer g h_g
    obtain h_copy | h_older := h_foreign g h_file h_backup
    · rw [← h_split] at h_copy h_dated
      exact mem_behind h_dated h_copy h_new h_ne
    · have := h_older f h_mem
      omega
  have h_le := (List.subperm_of_subset h_nodup h_sub).length_le
  have h_back := congrArg List.length h_drop
  rw [List.length_drop, List.length_append, List.length_cons] at h_back
  omega

end Copies

/-! ## Every run -/

/-- The file holds the database as it was after the first of these actions. -/
def CopyOf (history : List (Migration σ)) (content : σ) (trace : List (Action σ)) (f : File σ) :
    Prop :=
  ∃ db front, f.copy = some db ∧ front <+: trace ∧ replay content front = some db.content ∧
    applied front = history.filter fun m => m.version ≤ db.version

theorem CopyOf.later {history : List (Migration σ)} {content : σ} {trace : List (Action σ)}
    {f : File σ} (h : CopyOf history content trace f) (more : List (Action σ)) :
    CopyOf history content (trace ++ more) f := by
  obtain ⟨db, front, h_copy, h_front, h_rest⟩ := h
  exact ⟨db, front, h_copy, h_front.trans (List.prefix_append _ _), h_rest⟩

structure Inv (history : List (Migration σ)) (content : σ) (files : List (File σ)) (s : Panel σ) :
    Prop where
  applied : applied s.trace = history.filter fun m => m.version ≤ s.db.version
  replayed : replay content s.trace = some s.db.content
  running : ∀ build, s.running = some build → s.db.version = latestOf history build
  others : (s.files.filter fun f => !isBackup f) = files.filter fun f => !isBackup f
  names : (s.files.map (·.name)).Nodup
  dated : s.copies.Pairwise fun a b => a.mtime < b.mtime
  named : ∀ f ∈ s.copies, isBackup f = true
  foreign : ∀ f ∈ s.files, isBackup f = true → f ∈ s.copies ∨ ∀ c ∈ s.copies, f.mtime < c.mtime
  kept : ∀ f ∈ s.copies.drop (s.copies.length - BACKUPS_TO_KEEP), f ∈ s.files
  copied : ∀ f ∈ s.copies, CopyOf history content s.trace f

section Steps

variable {env} {history : List (Migration σ)} {content : σ} {files : List (File σ)} {s s' : Panel σ}
  {file : File σ} {now : Nat} {stuck : List String}

/-- The part of the invariant that speaks of files, after a copy was made. -/
theorem inv_copy (h : Inv history content files s)
    (h_files : ∀ f ∈ s.files, isBackup f = true → f.mtime < now)
    (h_copies : ∀ f ∈ s.copies, f.mtime < now) {files' : List (File σ)}
    (h_copy : backupDatabase env s.files s.db now stuck = some (files', file)) :
    Inv history content files { s with files := files', copies := s.copies ++ [file] } := by
  obtain ⟨h_name, h_now, h_content, h_backup, rfl⟩ := backup_spec h_copy
  have h_names : ((s.files ++ [file]).map (·.name)).Nodup := by
    rw [List.map_append, List.nodup_append]
    refine ⟨h.names, List.nodup_singleton _, ?_⟩
    rintro a h_a b h_b rfl
    obtain ⟨f, h_f, rfl⟩ := List.mem_map.mp h_a
    exact h_name f h_f (List.mem_singleton.mp h_b)
  have h_dated : (s.copies ++ [file]).Pairwise fun a b => a.mtime < b.mtime := by
    rw [List.pairwise_append]
    refine ⟨h.dated, List.pairwise_singleton _ _, fun a h_a b h_b => ?_⟩
    rw [List.mem_singleton.mp h_b, h_now]
    exact h_copies a h_a
  have h_foreign : ∀ f ∈ s.files ++ [file], isBackup f = true →
      f ∈ s.copies ++ [file] ∨ ∀ c ∈ s.copies ++ [file], f.mtime < c.mtime := by
    intro f h_f h_f_backup
    obtain h_f | h_f := List.mem_append.mp h_f
    · refine (h.foreign f h_f h_f_backup).imp (List.mem_append_left _) fun h_older c h_c => ?_
      obtain h_c | h_c := List.mem_append.mp h_c
      · exact h_older c h_c
      · rw [List.mem_singleton.mp h_c, h_now]
        exact h_files f h_f h_f_backup
    · exact .inl (List.mem_append_right _ h_f)
  refine { h with
    others := ?_
    names := h_names.sublist (List.filter_sublist.map _)
    dated := h_dated
    named := fun f h_f => ?_
    foreign := fun f h_f => h_foreign f (List.mem_of_mem_filter h_f)
    kept := fun f h_f => ?_
    copied := fun f h_f => ?_ }
  · rw [List.filter_filter, List.filter_append, ← h.others]
    have h_new : ([file].filter fun f => !isBackup f &&
        (!(oldBackups (s.files ++ [file])).any (·.name == f.name) || stuck.contains f.name)) = [] := by
      rw [List.filter_eq_nil_iff]
      intro f h_f
      rw [List.mem_singleton.mp h_f, h_backup]
      simp
    rw [h_new, List.append_nil]
    apply List.filter_congr
    intro f h_f
    -- an old copy with this name would be this file
    cases h_f_backup : isBackup f with
    | true => rfl
    | false =>
      have h_any : ((oldBackups (s.files ++ [file])).any (·.name == f.name)) = false := by
        rw [List.any_eq_false]
        intro g h_g h_eq
        rw [oldBackups] at h_g
        have h_sorted := (List.perm_insertionSort _ _).mem_iff.mp (List.mem_of_mem_drop h_g)
        obtain ⟨h_mem, h_g_backup⟩ := List.mem_filter.mp h_sorted
        have h_same := List.inj_on_of_nodup_map h_names h_mem (List.mem_append_left _ h_f)
          (beq_iff_eq.mp h_eq)
        rw [h_same, h_f_backup] at h_g_backup
        cases h_g_backup
      rw [h_any]
      rfl
  · obtain h_f | h_f := List.mem_append.mp h_f
    · exact h.named f h_f
    · rwa [List.mem_singleton.mp h_f]
  · have h_file : f ∈ s.files ++ [file] := by
      have h_last := h_f
      dsimp only at h_last
      rw [List.length_append, List.length_singleton, List.drop_append] at h_last
      obtain h_last | h_last := List.mem_append.mp h_last
      · refine List.mem_append_left _ (h.kept f ?_)
        have h_le : s.copies.length - BACKUPS_TO_KEEP ≤ s.copies.length + 1 - BACKUPS_TO_KEEP := by
          omega
        exact (List.drop_sublist_drop_left s.copies h_le).subset h_last
      · exact List.mem_append_right _ (List.mem_of_mem_drop h_last)
    refine List.mem_filter.mpr ⟨h_file, ?_⟩
    have h_any : ((oldBackups (s.files ++ [file])).any (·.name == f.name)) = false := by
      rw [List.any_eq_false]
      intro g h_g h_eq
      have h_mem : g ∈ s.files ++ [file] := List.mem_of_mem_filter
        ((List.perm_insertionSort _ _).mem_iff.mp (List.mem_of_mem_drop h_g))
      have h_same := List.inj_on_of_nodup_map h_names h_mem h_file (beq_iff_eq.mp h_eq)
      rw [h_same] at h_g
      exact not_old h_names h_dated h_foreign h_f h_g
    rw [h_any]
    rfl
  · obtain h_f | h_f := List.mem_append.mp h_f
    · exact h.copied f h_f
    · rw [List.mem_singleton.mp h_f]
      exact ⟨s.db, s.trace, h_content, List.prefix_refl _, h.replayed, h.applied⟩

/-- A transaction that went through takes the database to the schema of the build. -/
theorem inv_upgrade (h : Inv history content files s)
    (h_sorted : history.Pairwise fun a b => a.version < b.version) {build : Nat}
    (h_pos : 0 < build) (h_build : build ≤ history.length)
    (h_latest : s.db.version ≤ latestOf history build) {db : Database σ}
    (h_run : ((history.take build).filter fun m => s.db.version < m.version).foldlM
      (applyMigration env) s.db = .ok db) :
    Inv history content files { s with
      db
      running := some build
      trace := s.trace ++
        ((history.take build).filter fun m => s.db.version < m.version).map .migrated } := by
  obtain ⟨h_replay, h_version⟩ := replay_of_foldlM h_run
  have h_take := filter_latestOf h_sorted h_pos h_build
  have h_new : db.version = latestOf history build := by
    rw [h_version]
    exact version_after (h_sorted.sublist (List.take_sublist _ _)) h_latest
  refine { h with
    applied := ?_, replayed := ?_, running := fun k h_k => ?_
    copied := fun f h_f => (h.copied f h_f).later _ }
  · have h_split : (history.filter fun m => m.version ≤ s.db.version) =
        (history.take build).filter fun m => m.version ≤ s.db.version := by
      rw [← h_take, List.filter_filter]
      apply List.filter_congr
      intro m _
      by_cases h_m : m.version ≤ s.db.version
      · have h_le := Nat.le_trans h_m h_latest
        simp [h_m, h_le]
      · simp [h_m]
    rw [applied_append, applied_migrated, h.applied, h_split,
      filter_append_filter (h_sorted.sublist (List.take_sublist _ _))]
    dsimp only
    rw [h_new, h_take]
  · rw [replay_append, h.replayed]
    exact h_replay
  · rw [← Option.some.inj h_k]
    exact h_new

theorem inv_start (h_pos : ∀ m ∈ history, 0 < m.version) (h_names : (files.map (·.name)).Nodup) :
    Inv history content files (start content files) where
  applied := by
    have h_none : (history.filter fun m => m.version ≤ 0) = [] := by
      rw [List.filter_eq_nil_iff]
      intro m h_m
      have := h_pos m h_m
      simp only [decide_eq_true_eq]
      omega
    exact h_none.symm
  replayed := rfl
  running := fun build h_build => by cases h_build
  others := rfl
  names := h_names
  dated := List.Pairwise.nil
  named := fun f h_f => by cases h_f
  foreign := fun f _ _ => .inr fun c h_c => by cases h_c
  kept := fun f h_f => by cases h_f
  copied := fun f h_f => by cases h_f

theorem Inv.step (h : Inv history content files s)
    (h_sorted : history.Pairwise fun a b => a.version < b.version) {event : Event σ}
    (h_sound : sound s event = true) (h_step : Runner.step env history s event = some s') :
    Inv history content files s' := by
  cases event with
  | start build now stuck killed =>
    obtain ⟨h_guard, h_eq⟩ := Option.ite_none_right_eq_some.mp h_step
    obtain rfl := Option.some.inj h_eq
    rw [Bool.and_eq_true, Bool.and_eq_true, decide_eq_true_eq, decide_eq_true_eq,
      Option.isNone_iff_eq_none] at h_guard
    obtain ⟨⟨h_stopped, h_pos⟩, h_build⟩ := h_guard
    rw [sound, Bool.and_eq_true, List.all_eq_true, List.all_eq_true] at h_sound
    obtain ⟨h_files, h_db⟩ := @runMigrations_cases σ env s.db s.files now stuck killed
      (history.take build)
    generalize runMigrations env (history.take build) s.db s.files now stuck killed = started at *
    -- the files first, then the database
    have h_copied : Inv history content files
        { s with files := started.files, copies := s.copies ++ started.copy.toList } := by
      obtain ⟨h_same, h_none⟩ | ⟨file, h_copy, h_some⟩ := h_files
      · rw [h_same, h_none]
        show Inv history content files { s with copies := s.copies ++ [] }
        rw [List.append_nil]
        exact h
      · rw [h_some]
        refine inv_copy h (fun f h_f h_backup => ?_) (fun f h_f => ?_) h_copy
        · have h_older := h_sound.1 f h_f
          rw [h_backup] at h_older
          simpa using h_older
        · simpa using h_sound.2 f h_f
    obtain ⟨h_ended, h_same⟩ | ⟨h_ended, h_latest, h_run⟩ := h_db
    · rw [if_neg h_ended, if_neg h_ended, h_same]
      exact { h_copied with running := fun k h_k => by cases h_k }
    · rw [if_pos h_ended, if_pos h_ended]
      exact inv_upgrade h_copied h_sorted h_pos h_build h_latest h_run
  | use change =>
    obtain ⟨-, h_eq⟩ := Option.ite_none_right_eq_some.mp h_step
    obtain rfl := Option.some.inj h_eq
    refine { h with
      applied := ?_, replayed := ?_, copied := fun f h_f => (h.copied f h_f).later _ }
    · rw [applied_append, h.applied]
      exact List.append_nil _
    · rw [replay_append, h.replayed]
      rfl
  | stop =>
    obtain rfl := Option.some.inj h_step
    exact { h with running := fun k h_k => by cases h_k }

end Steps

end Runner

/-- Two migrations of a counter, the second of which refuses an odd one. -/
def counters : List (Migration Nat) :=
  [{ version := 1, name := "baseline", touches := [], up := fun n => .ok (n + 1) },
   { version := 2, name := "double", touches := []
     up := fun n => if n % 2 = 0 then .ok (2 * n) else .error "odd" }]

def counterEnv : Env Nat where
  hasUserTables := fun n => 0 < n
  violations := fun _ _ => 0
  stamp := toString

end Kubek.Migrations.Runner
