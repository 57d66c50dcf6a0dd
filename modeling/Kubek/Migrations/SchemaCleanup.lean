/-
  Kubek.Migrations.SchemaCleanup

  Migration 013 (013-schema-cleanup.ts, with `rebuildTable` of migration.types.ts), as far as
  it moves the file rules and the copies of backups. The other tables only decide whether it
  accepts a database.

  Of the copies at one location the migration keeps the one with the largest rowid, whatever
  its status. The lists of selected files and exclusions become rows, numbered in order.
  `JSON.parse` and what a value that is no text becomes in a TEXT column are parameters.
-/

import Kubek.Lib.Fallible
import Kubek.Lib.JsonValue
import Mathlib.Data.List.Nodup
import Mathlib.Data.List.Sort

namespace Kubek.Migrations

open JsJson

/-! ## Tables -/

/-- A row of `backups`, version 12. -/
structure Backup where
  id : Text
  type : Text
  status : Text
  format : Text
  selectedFiles : Option Text := none
  exclusions : Option Text := none
  deriving DecidableEq, Repr

/-- A row of `backup_copies`. -/
structure BackupCopy where
  rowid : Int
  id : Text
  backupId : Text
  storageId : Option Text
  objectKey : Text
  status : Text
  deriving DecidableEq, Repr

inductive RuleKind where
  | included
  | excluded
  deriving DecidableEq, Repr

/-- A row of `backup_file_rules`. -/
structure FileRule where
  backupId : Text
  kind : RuleKind
  position : Nat
  path : Text
  deriving DecidableEq, Repr

/-- The tables of version 12 that the backups live in. -/
structure V12 where
  backups : List Backup
  copies : List BackupCopy
  ids : (backups.map Backup.id).Nodup
  rowids : (copies.map BackupCopy.rowid).Nodup

/-- A row of `backups` without its JSON columns. -/
structure CleanBackup where
  id : Text
  type : Text
  status : Text
  format : Text
  deriving DecidableEq, Repr

structure V13 where
  backups : List CleanBackup
  copies : List BackupCopy
  rules : List FileRule
  deriving DecidableEq, Repr

/-! ## migration.types.ts -/

/-- `rebuildTable`: `INSERT .. SELECT` copies every row or throws. -/
def rebuildTable {A B : Type} (select : A → B) (fits : B → Bool) (rows : List A) : Option (List B) :=
  if !(rows.map select).all fits then none
  else if rows.length ≠ (rows.map select).length then none
  else some (rows.map select)

/-! ## 013-schema-cleanup.ts -/

section Migration

variable (js : Numbers) (parse : Text → Option (JsonValue js.Num))
  (bind : JsonValue js.Num → Option Text)

/-- `!!v`. -/
def truthy : JsonValue js.Num → Bool
  | .null => false
  | .bool b => b
  | .num n => !js.isNaN n && !js.eq n (js.ofNat 0)
  | .str text => decide (text ≠ [])
  | .arr _ => true
  | .obj _ => true

/-- `parseList`. -/
def parseList : Option Text → List (JsonValue js.Num)
  | none => []
  | some [] => []
  | some json =>
      match parse json with
      | some (.arr items) => items
      | _ => []

/-- The path of a selected file: the text itself, or the field of an object. -/
def filePath : JsonValue js.Num → Option (JsonValue js.Num)
  | .str text => some (.str text)
  | .obj fields => fieldOf fields "path".toList
  | _ => none

/-- What a bound value is in a TEXT column; none when it cannot be bound. -/
def bindText : JsonValue js.Num → Option Text
  | .str text => some text
  | v => bind v

/-- The paths of the include rules. -/
def includedPaths (row : Backup) : Option (List Text) :=
  (((parseList js parse row.selectedFiles).filterMap (filePath js)).filter (truthy js)).mapM
    (bindText js bind)

/-- The text of an item that is one. -/
def textOf : JsonValue js.Num → Option Text
  | .str text => some text
  | _ => none

/-- The patterns of the exclude rules. -/
def excludedPatterns (row : Backup) : List Text :=
  (parseList js parse row.exclusions).filterMap (textOf js)

/-- The rows for a list, numbered in order. -/
def numbered (id : Text) (kind : RuleKind) (paths : List Text) : List FileRule :=
  paths.zipIdx.map fun path => ⟨id, kind, path.2, path.1⟩

def rulesOf (row : Backup) : Option (List FileRule) :=
  (includedPaths js parse bind row).map fun paths =>
    numbered row.id .included paths ++ numbered row.id .excluded (excludedPatterns js parse row)

/-- The checks of the new `backups`. -/
def backupFits (row : CleanBackup) : Bool :=
  ["full".toList, "partial".toList].contains row.type &&
    ["creating".toList, "completed".toList, "failed".toList].contains row.status &&
    ["zip".toList, "tar.gz".toList].contains row.format

/-- `backupFileRules`. -/
def backupFileRules (db : V12) : Option (List FileRule × List CleanBackup) := do
  let rules ← db.backups.mapM (rulesOf js parse bind)
  let backups ← rebuildTable (fun row => ⟨row.id, row.type, row.status, row.format⟩) backupFits
    db.backups
  return (rules.flatten, backups)

/-- `backupId, IFNULL(storageId, '')`. -/
def location (copy : BackupCopy) : Text × Text := (copy.backupId, copy.storageId.getD [])

/-- The copy has the largest rowid of its location. -/
def isLatest (copies : List BackupCopy) (copy : BackupCopy) : Bool :=
  copies.all fun other => decide (location other = location copy → other.rowid ≤ copy.rowid)

def copyFits (copy : BackupCopy) : Bool :=
  ["uploading".toList, "ready".toList, "failed".toList].contains copy.status

/-- `backupCopies`; the unique index refuses two copies of a location. -/
def backupCopies (db : V12) : Option (List BackupCopy) := do
  let copies ← rebuildTable id copyFits (db.copies.filter (isLatest db.copies))
  if (copies.map location).Nodup then some copies else none

/-- `schemaCleanup` on the tables of the backups. -/
def schemaCleanup (db : V12) : Option V13 := do
  let (rules, backups) ← backupFileRules js parse bind db
  let copies ← backupCopies db
  return ⟨backups, copies, rules⟩

end Migration

/-! ## What the migration keeps -/

/-- A path of a JSON list of selected files: a text, or the text of the field `path`. A blank one
is no path. -/
def listedPath {N : Type} : JsonValue N → Option Text
  | .str text => if text = [] then none else some text
  | .obj fields =>
      match fieldOf fields "path".toList with
      | some (.str text) => if text = [] then none else some text
      | _ => none
  | _ => none

/-- The paths of a backup's rules of one kind, by position. -/
def readBack (rules : List FileRule) (id : Text) (kind : RuleKind) : List Text :=
  ((rules.filter fun rule => rule.backupId = id ∧ rule.kind = kind).mergeSort
    (fun a b => a.position ≤ b.position)).map FileRule.path

abbrev isReady (copy : BackupCopy) : Prop := copy.status = "ready".toList

/-- The copies belong to one backup and lie at one location. -/
def samePair (a b : BackupCopy) : Prop := a.backupId = b.backupId ∧ a.storageId = b.storageId

section Keeps

variable (js : Numbers) (parse : Text → Option (JsonValue js.Num))
  (bind : JsonValue js.Num → Option Text)

/-- Nothing usable of the backups is lost. -/
structure Keeps (before : V12) (after : V13) : Prop where
  ready : ∀ copy ∈ before.copies, isReady copy → ∃ kept ∈ after.copies,
    samePair kept copy ∧ isReady kept ∧
      ∃ old ∈ before.copies, samePair old copy ∧ isReady old ∧ old.objectKey = kept.objectKey
  single : after.copies.Pairwise fun a b => ¬ samePair a b
  rules : ∀ row ∈ before.backups,
    readBack after.rules row.id .included = (parseList js parse row.selectedFiles).filterMap listedPath ∧
    readBack after.rules row.id .excluded = (parseList js parse row.exclusions).filterMap (textOf js)

/-- Where a location has a ready copy its latest one is ready, and the paths in the JSON lists are
texts. -/
structure Movable (db : V12) : Prop where
  latest : ∀ copy ∈ db.copies, isReady copy → ∀ other ∈ db.copies,
    location other = location copy → isLatest db.copies other = true →
    isReady other ∧ other.storageId = copy.storageId
  paths : ∀ row ∈ db.backups, ∀ item ∈ parseList js parse row.selectedFiles, ∀ v,
    filePath js item = some v → truthy js v = true → ∃ text, v = .str text

end Keeps

/-! ### Rules -/

section Rules

variable {js : Numbers} {parse : Text → Option (JsonValue js.Num)}
  {bind : JsonValue js.Num → Option Text}

/-- Where one function finds all that another one finds, equal results are the same item by
item. -/
theorem filterMap_eq_iff {A B : Type} {f g : A → Option B} {l : List A}
    (h_le : ∀ a ∈ l, ∀ b, g a = some b → f a = some b) :
    (l.filterMap g).length ≤ (l.filterMap f).length ∧
      (l.filterMap f = l.filterMap g → ∀ a ∈ l, f a = g a) := by
  induction l with
  | nil => exact ⟨Nat.le_refl _, fun _ a h_mem => by cases h_mem⟩
  | cons a l ih =>
    obtain ⟨ih_le, ih_eq⟩ := ih fun x h_mem => h_le x (List.mem_cons_of_mem a h_mem)
    cases h_g : g a with
    | some b =>
      have h_f : f a = some b := h_le a List.mem_cons_self b h_g
      rw [List.filterMap_cons_some h_f, List.filterMap_cons_some h_g]
      refine ⟨Nat.succ_le_succ ih_le, fun h_eq x h_mem => ?_⟩
      rcases List.mem_cons.mp h_mem with rfl | h_mem
      · rw [h_f, h_g]
      · exact ih_eq (List.cons.inj h_eq).2 x h_mem
    | none =>
      rw [List.filterMap_cons_none h_g]
      cases h_f : f a with
      | none =>
        rw [List.filterMap_cons_none h_f]
        refine ⟨ih_le, fun h_eq x h_mem => ?_⟩
        rcases List.mem_cons.mp h_mem with rfl | h_mem
        · rw [h_f, h_g]
        · exact ih_eq h_eq x h_mem
      | some b =>
        rw [List.filterMap_cons_some h_f]
        refine ⟨Nat.le_succ_of_le ih_le, fun h_eq => ?_⟩
        -- The first list is longer.
        have h_length := congrArg List.length h_eq
        rw [List.length_cons] at h_length
        omega

theorem map_path_numbered (id : Text) (kind : RuleKind) (paths : List Text) :
    (numbered id kind paths).map FileRule.path = paths := by
  rw [numbered, List.map_map]
  exact List.zipIdx_map_fst 0 paths

theorem pairwise_numbered (id : Text) (kind : RuleKind) (paths : List Text) :
    (numbered id kind paths).Pairwise fun a b => decide (a.position ≤ b.position) = true := by
  rw [numbered, List.pairwise_map, List.pairwise_iff_getElem]
  intro i j h_i h_j h_lt
  simp only [List.getElem_zipIdx, decide_eq_true_eq]
  omega

theorem filter_numbered (id id' : Text) (kind kind' : RuleKind) (paths : List Text) :
    (numbered id kind paths).filter (fun rule => rule.backupId = id' ∧ rule.kind = kind')
      = if id = id' ∧ kind = kind' then numbered id kind paths else [] := by
  have h_mem : ∀ rule ∈ numbered id kind paths, rule.backupId = id ∧ rule.kind = kind := by
    intro rule h_rule
    obtain ⟨path, -, rfl⟩ := List.mem_map.mp h_rule
    exact ⟨rfl, rfl⟩
  by_cases h : id = id' ∧ kind = kind'
  · rw [if_pos h, List.filter_eq_self]
    intro rule h_rule
    obtain ⟨h_id, h_kind⟩ := h_mem rule h_rule
    simp [h_id, h_kind, h.1, h.2]
  · rw [if_neg h, List.filter_eq_nil_iff]
    intro rule h_rule
    obtain ⟨h_id, h_kind⟩ := h_mem rule h_rule
    simpa [h_id, h_kind] using h

theorem rulesOf_cases {row : Backup} {rules : List FileRule}
    (h : rulesOf js parse bind row = some rules) :
    ∃ paths, includedPaths js parse bind row = some paths ∧
      rules = numbered row.id .included paths ++
        numbered row.id .excluded (excludedPatterns js parse row) := by
  obtain ⟨paths, h_paths, rfl⟩ := Option.map_eq_some_iff.mp h
  exact ⟨paths, h_paths, rfl⟩

/-- Rules of other backups do not count. -/
theorem filter_rulesOf_ne {row : Backup} {rules : List FileRule} {id : Text}
    (h : rulesOf js parse bind row = some rules) (h_ne : row.id ≠ id) (kind : RuleKind) :
    rules.filter (fun rule => rule.backupId = id ∧ rule.kind = kind) = [] := by
  obtain ⟨paths, -, rfl⟩ := rulesOf_cases h
  rw [List.filter_append, filter_numbered, filter_numbered,
    if_neg (fun h_eq => h_ne h_eq.1), if_neg (fun h_eq => h_ne h_eq.1), List.append_nil]

/-- The rules of a backup, among those of all. -/
theorem filter_flatten {rows : List Backup} {rules : List (List FileRule)}
    (h_ids : (rows.map Backup.id).Nodup) (h : rows.mapM (rulesOf js parse bind) = some rules)
    {row : Backup} (h_row : row ∈ rows) (kind : RuleKind) :
    ∃ own, rulesOf js parse bind row = some own ∧
      rules.flatten.filter (fun rule => rule.backupId = row.id ∧ rule.kind = kind)
        = own.filter (fun rule => rule.backupId = row.id ∧ rule.kind = kind) := by
  induction rows generalizing rules with
  | nil => cases h_row
  | cons first rows ih =>
    rw [List.mapM_cons] at h
    obtain ⟨own, h_own, h⟩ := Option.bind_eq_some_iff.mp h
    obtain ⟨rest, h_rest, h⟩ := Option.bind_eq_some_iff.mp h
    cases h
    obtain ⟨h_head, h_tail⟩ := List.nodup_cons.mp h_ids
    rw [List.flatten_cons, List.filter_append]
    rcases List.mem_cons.mp h_row with rfl | h_mem
    · refine ⟨own, h_own, ?_⟩
      -- The rules behind belong to backups with other ids.
      have h_behind : rest.flatten.filter
          (fun rule => rule.backupId = row.id ∧ rule.kind = kind) = [] := by
        obtain ⟨rfl, -⟩ := Fallible.eq_filterMap_of_mapM h_rest
        rw [List.filter_eq_nil_iff]
        intro rule h_rule
        obtain ⟨other, h_other, h_in⟩ := List.mem_flatten.mp h_rule
        obtain ⟨row', h_row', h_rules⟩ := List.mem_filterMap.mp h_other
        have h_ne : row'.id ≠ row.id := by
          intro h_eq
          exact h_head (h_eq ▸ List.mem_map_of_mem h_row')
        have h_none := filter_rulesOf_ne h_rules h_ne kind
        exact List.filter_eq_nil_iff.mp h_none rule h_in
      rw [h_behind, List.append_nil]
    · have h_ne : first.id ≠ row.id := by
        intro h_eq
        exact h_head (h_eq ▸ List.mem_map_of_mem h_mem)
      rw [filter_rulesOf_ne h_own h_ne kind, List.nil_append]
      exact ih h_tail h_rest h_mem

theorem readBack_numbered {rules : List FileRule} {id : Text} {kind : RuleKind} {paths : List Text}
    (h : rules.filter (fun rule => rule.backupId = id ∧ rule.kind = kind) = numbered id kind paths) :
    readBack rules id kind = paths := by
  rw [readBack, h, List.mergeSort_of_pairwise (pairwise_numbered id kind paths),
    map_path_numbered]

/-- The rules read back: the paths that were inserted, and the patterns. -/
theorem readBack_rules {db : V12} {rules : List (List FileRule)}
    (h : db.backups.mapM (rulesOf js parse bind) = some rules) {row : Backup}
    (h_row : row ∈ db.backups) :
    includedPaths js parse bind row = some (readBack rules.flatten row.id .included) ∧
      readBack rules.flatten row.id .excluded = excludedPatterns js parse row := by
  obtain ⟨own, h_own, h_included⟩ := filter_flatten db.ids h h_row .included
  obtain ⟨own', h_own', h_excluded⟩ := filter_flatten db.ids h h_row .excluded
  have h_same : own' = own := Option.some.inj (h_own'.symm.trans h_own)
  subst h_same
  obtain ⟨paths, h_paths, rfl⟩ := rulesOf_cases h_own
  rw [List.filter_append, filter_numbered, filter_numbered] at h_included h_excluded
  simp only [true_and, reduceCtorEq, if_true, if_false, List.append_nil, and_false,
    List.nil_append] at h_included h_excluded
  rw [readBack_numbered h_included, readBack_numbered h_excluded]
  exact ⟨h_paths, rfl⟩

/-- The rule an item brings. -/
def ruleOf (bind : JsonValue js.Num → Option Text) (item : JsonValue js.Num) : Option Text :=
  ((filePath js item).filter (truthy js)).bind (bindText js bind)

theorem includedPaths_eq {row : Backup} {paths : List Text}
    (h : includedPaths js parse bind row = some paths) :
    paths = (parseList js parse row.selectedFiles).filterMap (ruleOf bind) ∧
      ∀ item ∈ parseList js parse row.selectedFiles, ∀ v, filePath js item = some v →
        truthy js v = true → (bindText js bind v).isSome = true := by
  obtain ⟨h_eq, h_bound⟩ := Fallible.eq_filterMap_of_mapM h
  refine ⟨?_, ?_⟩
  · rw [h_eq, List.filter_filterMap, List.filterMap_filterMap]
    rfl
  · intro item h_item v h_v h_true
    refine h_bound v (List.mem_filter.mpr ⟨?_, h_true⟩)
    exact List.mem_filterMap.mpr ⟨item, h_item, h_v⟩

/-- A path in a list is found, and it is not blank. -/
theorem filePath_of_listedPath {item : JsonValue js.Num} {path : Text}
    (h : listedPath item = some path) : filePath js item = some (.str path) ∧ path ≠ [] := by
  match item, h with
  | .str text, h =>
    rw [listedPath] at h
    split at h
    · cases h
    · rename_i h_blank
      cases h
      exact ⟨rfl, h_blank⟩
  | .obj fields, h =>
    rw [listedPath] at h
    split at h
    · rename_i text h_field
      split at h
      · cases h
      · rename_i h_blank
        cases h
        exact ⟨h_field, h_blank⟩
    · cases h

/-- A path in a list becomes a rule. -/
theorem ruleOf_of_listedPath {item : JsonValue js.Num} {path : Text}
    (h : listedPath item = some path) : ruleOf bind item = some path := by
  obtain ⟨h_file, h_blank⟩ := filePath_of_listedPath h
  rw [ruleOf, h_file]
  simp [Option.filter, truthy, h_blank, bindText]

/-- A text that is not blank is a path of its list. -/
theorem listedPath_of_filePath {item : JsonValue js.Num} {path : Text}
    (h : filePath js item = some (.str path)) (h_true : truthy js (.str path) = true) :
    listedPath item = some path := by
  have h_blank : path ≠ [] := by simpa [truthy] using h_true
  match item, h with
  | .str text, h =>
    cases h
    simp [listedPath, h_blank]
  | .obj fields, h =>
    have h_field : fieldOf fields "path".toList = some (.str path) := h
    rw [listedPath, h_field]
    simp [h_blank]

/-- The rules of a list are its paths exactly when all its paths are texts. -/
theorem filterMap_ruleOf_iff {items : List (JsonValue js.Num)}
    (h_bound : ∀ item ∈ items, ∀ v, filePath js item = some v → truthy js v = true →
      (bindText js bind v).isSome = true) :
    items.filterMap (ruleOf bind) = items.filterMap listedPath ↔
      ∀ item ∈ items, ∀ v, filePath js item = some v → truthy js v = true →
        ∃ text, v = .str text := by
  constructor
  · intro h_eq item h_item v h_v h_true
    obtain ⟨text, h_text⟩ := Option.isSome_iff_exists.mp (h_bound item h_item v h_v h_true)
    have h_rule : ruleOf bind item = some text := by
      rw [ruleOf, h_v, Option.filter, if_pos h_true]
      exact h_text
    have h_same := (filterMap_eq_iff fun a _ b h_b => ruleOf_of_listedPath h_b).2 h_eq item h_item
    rw [h_rule] at h_same
    obtain ⟨h_file, -⟩ := filePath_of_listedPath h_same.symm
    rw [h_v] at h_file
    exact ⟨text, Option.some.inj h_file⟩
  · intro h_texts
    refine List.filterMap_congr fun item h_item => ?_
    cases h_listed : listedPath item with
    | some path => exact ruleOf_of_listedPath h_listed
    | none =>
      rw [ruleOf]
      cases h_v : filePath js item with
      | none => rfl
      | some v =>
        rw [Option.filter]
        split
        · rename_i h_true
          obtain ⟨text, rfl⟩ := h_texts item h_item v h_v h_true
          rw [listedPath_of_filePath h_v h_true] at h_listed
          cases h_listed
        · rfl

end Rules

/-! ### Copies -/

section Copies

variable {db : V12} {after : List BackupCopy}

theorem isLatest_iff {copies : List BackupCopy} {copy : BackupCopy} :
    isLatest copies copy = true ↔
      ∀ other ∈ copies, location other = location copy → other.rowid ≤ copy.rowid := by
  simp only [isLatest, List.all_eq_true, decide_eq_true_eq]

/-- Distinct rowids name distinct rows. -/
theorem V12.eq_of_rowid (db : V12) {a b : BackupCopy} (h_a : a ∈ db.copies) (h_b : b ∈ db.copies)
    (h : a.rowid = b.rowid) : a = b :=
  List.inj_on_of_nodup_map db.rowids h_a h_b h

/-- A location has one latest copy. -/
theorem V12.eq_of_isLatest (db : V12) {a b : BackupCopy} (h_a : a ∈ db.copies) (h_b : b ∈ db.copies)
    (h_latest : isLatest db.copies a = true) (h_latest' : isLatest db.copies b = true)
    (h : location a = location b) : a = b := by
  refine db.eq_of_rowid h_a h_b ?_
  have h_le := isLatest_iff.mp h_latest b h_b h.symm
  have h_ge := isLatest_iff.mp h_latest' a h_a h
  exact Int.le_antisymm h_ge h_le

/-- A row with a largest value among those that satisfy `p`. -/
theorem exists_largest {A : Type} (value : A → Int) (p : A → Prop) (l : List A)
    (h : ∃ a ∈ l, p a) : ∃ a ∈ l, p a ∧ ∀ b ∈ l, p b → value b ≤ value a := by
  induction l with
  | nil =>
    obtain ⟨a, h_a, -⟩ := h
    cases h_a
  | cons x l ih =>
    by_cases h_rest : ∃ a ∈ l, p a
    · obtain ⟨a, h_a, h_p, h_max⟩ := ih h_rest
      by_cases h_x : p x ∧ value a < value x
      · refine ⟨x, List.mem_cons_self, h_x.1, fun b h_b h_pb => ?_⟩
        rcases List.mem_cons.mp h_b with rfl | h_b
        · exact Int.le_refl _
        · exact Int.le_trans (h_max b h_b h_pb) (Int.le_of_lt h_x.2)
      · refine ⟨a, List.mem_cons_of_mem x h_a, h_p, fun b h_b h_pb => ?_⟩
        rcases List.mem_cons.mp h_b with rfl | h_b
        · exact Int.not_lt.mp fun h_lt => h_x ⟨h_pb, h_lt⟩
        · exact h_max b h_b h_pb
    · obtain ⟨a, h_a, h_p⟩ := h
      rcases List.mem_cons.mp h_a with rfl | h_a
      · refine ⟨a, List.mem_cons_self, h_p, fun b h_b h_pb => ?_⟩
        rcases List.mem_cons.mp h_b with rfl | h_b
        · exact Int.le_refl _
        · exact absurd ⟨b, h_b, h_pb⟩ h_rest
      · exact absurd ⟨a, h_a, h_p⟩ h_rest

/-- Every location keeps a copy. -/
theorem exists_isLatest {copies : List BackupCopy} {copy : BackupCopy} (h : copy ∈ copies) :
    ∃ kept ∈ copies, location kept = location copy ∧ isLatest copies kept = true := by
  obtain ⟨kept, h_kept, h_location, h_max⟩ :=
    exists_largest BackupCopy.rowid (location · = location copy) copies ⟨copy, h, rfl⟩
  exact ⟨kept, h_kept, h_location,
    isLatest_iff.mpr fun other h_other h_eq => h_max other h_other (h_eq.trans h_location)⟩

/-- The migrated copies: the latest ones, one a location. -/
theorem backupCopies_spec (h : backupCopies db = some after) :
    (∀ copy, copy ∈ after ↔ copy ∈ db.copies ∧ isLatest db.copies copy = true) ∧
      after.Pairwise fun a b => location a ≠ location b := by
  obtain ⟨rebuilt, h_rebuilt, h⟩ := Option.bind_eq_some_iff.mp h
  rw [rebuildTable] at h_rebuilt
  split at h_rebuilt
  · cases h_rebuilt
  split at h_rebuilt
  · cases h_rebuilt
  cases h_rebuilt
  split at h
  · rename_i h_unique
    cases h
    rw [List.map_id] at h_unique ⊢
    exact ⟨fun copy => List.mem_filter, List.pairwise_map.mp h_unique⟩
  · cases h

/-- The unique index never refuses: the deletion leaves one copy a location. -/
theorem nodup_location_latest (db : V12) :
    ((db.copies.filter (isLatest db.copies)).map location).Nodup := by
  have h_rows : (db.copies.filter (isLatest db.copies)).Nodup :=
    (List.Nodup.of_map _ db.rowids).filter _
  refine (List.nodup_map_iff_inj_on h_rows).mpr fun a h_a b h_b h_eq => ?_
  obtain ⟨h_mem, h_latest⟩ := List.mem_filter.mp h_a
  obtain ⟨h_mem', h_latest'⟩ := List.mem_filter.mp h_b
  exact db.eq_of_isLatest h_mem h_mem' h_latest h_latest' h_eq

/-- So only the status of a kept copy is checked. -/
theorem backupCopies_isSome_iff :
    (backupCopies db).isSome = true ↔
      ∀ copy ∈ db.copies, isLatest db.copies copy = true → copyFits copy = true := by
  rw [backupCopies, rebuildTable, List.map_id]
  by_cases h_fits : (db.copies.filter (isLatest db.copies)).all copyFits = true
  · simp only [h_fits, Bool.not_true, Bool.false_eq_true, if_false, ne_eq, not_true, if_false,
      Option.bind_eq_bind, Option.bind_some, if_pos (nodup_location_latest db), Option.isSome_some,
      true_iff]
    intro copy h_mem h_latest
    exact List.all_eq_true.mp h_fits copy (List.mem_filter.mpr ⟨h_mem, h_latest⟩)
  · simp only [h_fits, Bool.not_false, if_true, Option.bind_eq_bind, Option.bind_none,
      Option.isSome_none, Bool.false_eq_true, false_iff]
    intro h_all
    refine h_fits (List.all_eq_true.mpr fun copy h_copy => ?_)
    obtain ⟨h_mem, h_latest⟩ := List.mem_filter.mp h_copy
    exact h_all copy h_mem h_latest

theorem samePair.location_eq {a b : BackupCopy} (h : samePair a b) : location a = location b := by
  rw [location, location, h.1, h.2]

/-- Ready copies are kept exactly where the latest copy of their location is such a one. -/
theorem ready_iff (h : backupCopies db = some after) :
    (∀ copy ∈ db.copies, isReady copy → ∃ kept ∈ after, samePair kept copy ∧ isReady kept ∧
        ∃ old ∈ db.copies, samePair old copy ∧ isReady old ∧ old.objectKey = kept.objectKey) ↔
      ∀ copy ∈ db.copies, isReady copy → ∀ other ∈ db.copies,
        location other = location copy → isLatest db.copies other = true →
        isReady other ∧ other.storageId = copy.storageId := by
  obtain ⟨h_mem, -⟩ := backupCopies_spec h
  constructor
  · intro h_ready copy h_copy h_is other h_other h_location h_latest
    obtain ⟨kept, h_kept, h_pair, h_kept_ready, -⟩ := h_ready copy h_copy h_is
    obtain ⟨h_old, h_kept_latest⟩ := (h_mem kept).mp h_kept
    have h_eq : other = kept :=
      db.eq_of_isLatest h_other h_old h_latest h_kept_latest
        (h_location.trans h_pair.location_eq.symm)
    rw [h_eq]
    exact ⟨h_kept_ready, h_pair.2⟩
  · intro h_latest copy h_copy h_is
    obtain ⟨kept, h_kept, h_location, h_is_latest⟩ := exists_isLatest h_copy
    obtain ⟨h_kept_ready, h_storage⟩ := h_latest copy h_copy h_is kept h_kept h_location h_is_latest
    have h_backup : kept.backupId = copy.backupId := (Prod.mk.inj h_location).1
    exact ⟨kept, (h_mem kept).mpr ⟨h_kept, h_is_latest⟩, ⟨h_backup, h_storage⟩, h_kept_ready,
      kept, h_kept, ⟨h_backup, h_storage⟩, h_kept_ready, rfl⟩

end Copies

/-- Of an accepted database the migration keeps the ready copies and the rules exactly when the
latest copy of every location with a ready one is ready, and the listed paths are texts. -/
theorem keeps_iff_movable (js : Numbers) (parse : Text → Option (JsonValue js.Num))
    (bind : JsonValue js.Num → Option Text) (db : V12) {after : V13}
    (h : schemaCleanup js parse bind db = some after) :
    Keeps js parse db after ↔ Movable js parse db := by
  obtain ⟨⟨rules, backups⟩, h_rules, h⟩ := Option.bind_eq_some_iff.mp h
  obtain ⟨copies, h_copies, h⟩ := Option.bind_eq_some_iff.mp h
  cases h
  obtain ⟨lists, h_lists, h_rules⟩ := Option.bind_eq_some_iff.mp h_rules
  obtain ⟨clean, -, h_rules⟩ := Option.bind_eq_some_iff.mp h_rules
  cases h_rules
  have h_paths : ∀ row ∈ db.backups,
      readBack lists.flatten row.id .included
          = (parseList js parse row.selectedFiles).filterMap listedPath ↔
        ∀ item ∈ parseList js parse row.selectedFiles, ∀ v,
          filePath js item = some v → truthy js v = true → ∃ text, v = .str text := by
    intro row h_row
    obtain ⟨h_included, -⟩ := readBack_rules h_lists h_row
    obtain ⟨h_eq, h_bound⟩ := includedPaths_eq h_included
    rw [h_eq]
    exact filterMap_ruleOf_iff h_bound
  constructor
  · intro h_keeps
    exact ⟨(ready_iff h_copies).mp h_keeps.ready,
      fun row h_row => (h_paths row h_row).mp (h_keeps.rules row h_row).1⟩
  · intro h_movable
    refine ⟨(ready_iff h_copies).mpr h_movable.latest, ?_, ?_⟩
    · exact (backupCopies_spec h_copies).2.imp fun h_ne h_pair => h_ne h_pair.location_eq
    · intro row h_row
      exact ⟨(h_paths row h_row).mpr (h_movable.paths row h_row), (readBack_rules h_lists h_row).2⟩

/-- A backup with two copies of one archive in one place, and its lists. -/
def twoReadyCopies : V12 where
  backups := [⟨"b1".toList, "partial".toList, "completed".toList, "zip".toList,
    some "selected".toList, none⟩]
  copies := [⟨1, "c1".toList, "b1".toList, none, "b1.zip".toList, "ready".toList⟩,
    ⟨2, "c2".toList, "b1".toList, none, "b1.zip".toList, "ready".toList⟩]
  ids := by decide
  rowids := by decide

/-- The text `selected` is a list of one folder and one path. -/
def selectedFiles (text : Text) : Option (JsonValue Numbers.naturals.Num) :=
  if text = "selected".toList then
    some (.arr [.str "world".toList, .obj [("path".toList, .str "ops.json".toList)]])
  else none

theorem keeps_twoReadyCopies :
    ∃ after, schemaCleanup Numbers.naturals selectedFiles (fun _ => none) twoReadyCopies = some after ∧
      Keeps Numbers.naturals selectedFiles twoReadyCopies after := by
  refine ⟨_, rfl, (keeps_iff_movable Numbers.naturals selectedFiles (fun _ => none)
    twoReadyCopies rfl).mpr ⟨?_, ?_⟩⟩
  · decide
  · intro row h_row item h_item v h_v _
    rw [List.mem_singleton.mp h_row] at h_item
    have h_items : item ∈ [JsonValue.str "world".toList,
        .obj [("path".toList, .str "ops.json".toList)]] := h_item
    rw [List.mem_cons, List.mem_singleton] at h_items
    rcases h_items with rfl | rfl
    · exact ⟨_, (Option.some.inj h_v).symm⟩
    · exact ⟨_, (Option.some.inj h_v).symm⟩

/-! ## A ready copy behind a failed one -/

/-- A ready local copy, and a failed one that was inserted later. -/
def failedBehindReady : V12 where
  backups := [⟨"b1".toList, "full".toList, "completed".toList, "zip".toList, none, none⟩]
  copies := [⟨1, "c1".toList, "b1".toList, none, "b1.zip".toList, "ready".toList⟩,
    ⟨2, "c2".toList, "b1".toList, none, "b1.zip".toList, "failed".toList⟩]
  ids := by decide
  rowids := by decide

/-- The database is accepted, and the backup's only ready copy is gone. -/
theorem ready_copy_dropped :
    ¬ ∀ (js : Numbers) (parse : Text → Option (JsonValue js.Num))
        (bind : JsonValue js.Num → Option Text) (db : V12) (after : V13),
        schemaCleanup js parse bind db = some after → Keeps js parse db after := by
  intro h
  have h_keeps := h Numbers.naturals (fun _ => none) (fun _ => none) failedBehindReady _ rfl
  obtain ⟨kept, h_kept, -, h_ready, -⟩ :=
    h_keeps.ready ⟨1, "c1".toList, "b1".toList, none, "b1.zip".toList, "ready".toList⟩
      List.mem_cons_self rfl
  rw [List.mem_singleton.mp h_kept] at h_ready
  exact absurd h_ready (by decide)

end Kubek.Migrations
