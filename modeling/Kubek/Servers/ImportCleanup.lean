/-
  Kubek.Servers.ImportCleanup

  What a refused import leaves behind.

  Every refusal that `importServer` states removes the extraction folder first. Two kinds
  of exit do not: an exception between them (a manifest that is `null`, a `server` that is
  not there, a name that is no text, a value that does not bind to its column), and the
  catch of `runImportMove`, whatever step of the move has failed. `Handled` is the
  manifests and faults that reach neither.

  Each part of the checks gets one lemma, which says exactly when it ends well (`Ends`).
-/

import Kubek.Servers.Transfer

namespace Kubek.Transfer

open FileTree
open FileTree.Folder
open JsJson JsText
open Kubek.Backups.Archive (Bytes)

variable {js : Numbers}

/-- There is a server with its row and folder, or nothing is left. -/
def After.Settled (after : After js) : Prop :=
  (after.result = .ok .SUCCESS ∧ after.row.isSome = true ∧ after.folder.isSome = true) ∨
    (after.result ≠ .ok .SUCCESS ∧ after.row.isNone = true ∧ after.folder.isNone = true ∧
      after.temp.isNone = true)

/-! ## What the import can handle -/

/-- The row can be stored. -/
structure Binds (field : Text → Option (JsonValue js.Num)) : Prop where
  attempts : (bindNumber (importedRestart field).2).isSome = true
  blueprintId : (bindText (field "blueprintId".toList)).isSome = true
  blueprintVersion : (bindText (field "blueprintVersion".toList)).isSome = true
  runtimeKind : (bindText (JsonValue.nonNull (field "runtimeKind".toList))).isSome = true

/-- The `server` of a manifest, once its name is accepted. -/
def ServerHandled (panel : Panel js) (faults : Faults) (server : Option (JsonValue js.Num)) : Prop :=
  ∃ field, deref server = some field ∧
    (truthy (field "blueprintId".toList) = true → unsafeForBlueprint panel field = none →
      Binds field ∧ faults.Silent)

/-- The override of the name, trimmed. -/
def givenName (overrideName : Option Text) : Text := trimChars (overrideName.getD [])

/-- The name is asked for: by the override, or where that is blank by the manifest. -/
def Wanted (server : Option (JsonValue js.Num)) (overrideName : Option Text) (name : Text) : Prop :=
  if givenName overrideName ≠ [] then name = trimChars (givenName overrideName)
  else ∃ field text, deref server = some field ∧ field "name".toList = some (.str text) ∧
    name = trimChars text

/-- The name can be read: an override, or a text or nothing in the manifest. -/
def NameHandled (server : Option (JsonValue js.Num)) (overrideName : Option Text) : Prop :=
  givenName overrideName = [] → ∃ field, deref server = some field ∧
    (truthy (field "name".toList) = true → ∃ text, field "name".toList = some (.str text))

/-- A manifest that leads to no exception, and to no move that fails. -/
def Handled (panel : Panel js) (faults : Faults) (overrideName : Option Text)
    (manifest : JsonValue js.Num) : Prop :=
  ∃ field, deref (some manifest) = some field ∧
    (isSupportedVersion (field "kubekExport".toList) = true →
      NameHandled (field "server".toList) overrideName ∧
      ∀ name, Wanted (field "server".toList) overrideName name → name ≠ [] →
        nameTaken panel name = false → ServerHandled panel faults (field "server".toList))

/-! ## The move -/

variable {panel : Panel js} {faults : Faults} {id name : Text}
  {server : Option (JsonValue js.Num)} {overrideName : Option Text}
  {field : Text → Option (JsonValue js.Num)}

@[simp] theorem not_settled_of_temp {after : After js} {temp : Folder Bytes}
    (h_temp : after.temp = some temp) (h_result : after.result ≠ .ok .SUCCESS) :
    ¬ after.Settled := by
  rintro (⟨h_ok, -⟩ | ⟨-, -, -, h_none⟩)
  · exact h_result h_ok
  · rw [h_temp] at h_none
    cases h_none

theorem settled_refused (e : Refusal) : (refused e : After js).Settled :=
  .inr ⟨fun h => (by cases h), rfl, rfl, rfl⟩

/-- A failed task keeps the extraction folder. -/
theorem not_settled_discarded (folder : Option (Folder Bytes)) (temp : Folder Bytes) :
    ¬ (discarded faults folder (some temp) : After js).Settled :=
  not_settled_of_temp rfl fun h => by cases h

theorem runImportMove_settled_iff (extractDir : Folder Bytes) (created : IServer js) :
    (runImportMove faults extractDir created).Settled ↔ faults.Silent := by
  obtain ⟨unlink, mkdir, copy, remove, discard⟩ := faults
  simp only [Faults.Silent]
  cases unlink with
  | true => simp [runImportMove, not_settled_discarded]
  | false =>
    cases mkdir with
    | true => simp [runImportMove, not_settled_discarded]
    | false =>
      cases copy with
      | some left => simp [runImportMove, not_settled_discarded]
      | none =>
        cases remove with
        | some left => simp [runImportMove, not_settled_discarded]
        | none => simp [runImportMove, After.Settled]

/-! ## The checks -/

/-- Nothing is left behind after these checks. -/
def Checked.Ends (faults : Faults) : Checked js → Prop
  | .refused _ => True
  | .thrown => False
  | .created _ => faults.Silent

/-- A truthy value that binds is not NULL. -/
theorem bindText_of_truthy {v : Option (JsonValue js.Num)} {text : Option Text}
    (h_truthy : truthy v = true) (h : bindText v = some text) : text.isSome = true := by
  match v, h_truthy, h with
  | some (.bool b), _, h =>
    cases h
    rfl
  | some (.num n), h_truthy, h =>
    have h_nan : js.isNaN n = false := by simp [truthy] at h_truthy; exact h_truthy.1
    simp only [bindText, h_nan, Option.some.injEq] at h
    rw [← h]
    rfl
  | some (.str t), _, h =>
    cases h
    rfl

theorem create_isSome_iff (id name : Text) (h : truthy (field "blueprintId".toList) = true) :
    (create id name field).isSome = true ↔ Binds field := by
  constructor
  · intro h_some
    obtain ⟨row, h_row⟩ := Option.isSome_iff_exists.mp h_some
    simp only [create, Option.bind_eq_bind, Option.bind_eq_some_iff] at h_row
    obtain ⟨attempts, h_attempts, blueprintId, h_id, -, -, version, h_version, kind, h_kind, -⟩ :=
      h_row
    exact ⟨by rw [h_attempts]; rfl, by rw [h_id]; rfl, by rw [h_version]; rfl, by rw [h_kind]; rfl⟩
  · intro h_binds
    obtain ⟨attempts, h_attempts⟩ := Option.isSome_iff_exists.mp h_binds.attempts
    obtain ⟨column, h_column⟩ := Option.isSome_iff_exists.mp h_binds.blueprintId
    obtain ⟨version, h_version⟩ := Option.isSome_iff_exists.mp h_binds.blueprintVersion
    obtain ⟨kind, h_kind⟩ := Option.isSome_iff_exists.mp h_binds.runtimeKind
    obtain ⟨blueprintId, h_id⟩ := Option.isSome_iff_exists.mp (bindText_of_truthy h h_column)
    simp only [create, h_attempts, h_column, h_id, h_version, h_kind, Option.bind_eq_bind,
      Option.bind_some, Option.isSome_some]

theorem checkServer_ends_iff :
    (checkServer panel id name server).Ends faults ↔ ServerHandled panel faults server := by
  rw [checkServer, ServerHandled]
  cases h_deref : deref server with
  | none => simp [Checked.Ends]
  | some field =>
    simp only [Option.some.injEq, exists_eq_left']
    cases h_id : truthy (field "blueprintId".toList) with
    | false => simp [Checked.Ends]
    | true =>
      simp only [Bool.not_true, Bool.false_eq_true, if_false, true_imp_iff]
      cases h_safe : unsafeForBlueprint panel field with
      | some e => simp [Checked.Ends]
      | none =>
        simp only [true_imp_iff, ← create_isSome_iff id name h_id]
        cases h_create : create id name field with
        | none => simp [Checked.Ends]
        | some created => simp [Checked.Ends]

theorem desiredName_isSome_iff :
    (desiredName server overrideName).isSome = true ↔ NameHandled server overrideName := by
  rw [desiredName, NameHandled, givenName]
  by_cases h_given : trimChars (overrideName.getD []) = []
  · simp only [h_given, ne_eq, not_true_eq_false, if_false, true_imp_iff]
    cases h_deref : deref server with
    | none => simp
    | some field =>
      simp only [Option.some.injEq, exists_eq_left']
      cases h_name : truthy (field "name".toList) with
      | false => simp
      | true =>
        simp only [if_true, true_imp_iff]
        split
        · rename_i text h_text
          simp only [Option.isSome_some, true_iff]
          exact ⟨text, h_text⟩
        · rename_i h_no
          simp only [Option.isSome_none, Bool.false_eq_true, false_iff, not_exists]
          exact h_no
  · simp [h_given]

/-- The name that is read is the one that is wanted; a blank one is none. -/
theorem desiredName_wanted (h : desiredName server overrideName = some name) (h_name : name ≠ [])
    (other : Text) : Wanted server overrideName other ↔ other = name := by
  rw [desiredName] at h
  rw [Wanted, givenName]
  by_cases h_given : trimChars (overrideName.getD []) = []
  · simp only [h_given, ne_eq, not_true_eq_false, if_false] at h ⊢
    split at h
    · cases h
    · rename_i field h_deref
      split at h
      · split at h
        · rename_i text h_text
          cases h
          constructor
          · rintro ⟨field', text', h_deref', h_text', rfl⟩
            cases h_deref.symm.trans h_deref'
            cases h_text.symm.trans h_text'
            rfl
          · rintro rfl
            exact ⟨field, text, h_deref, h_text, rfl⟩
        · cases h
      · cases h
        exact absurd rfl h_name
  · simp only [h_given, ne_eq, not_false_eq_true, if_true, Option.some.injEq] at h ⊢
    rw [h]

/-- A name that is wanted and not blank is read. -/
theorem name_ne_of_wanted (h : desiredName server overrideName = some []) {other : Text}
    (h_wanted : Wanted server overrideName other) : other = [] := by
  rw [desiredName] at h
  rw [Wanted, givenName] at h_wanted
  by_cases h_given : trimChars (overrideName.getD []) = []
  · simp only [h_given, ne_eq, not_true_eq_false, if_false] at h h_wanted
    obtain ⟨field, text, h_deref, h_text, rfl⟩ := h_wanted
    simp only [h_deref, h_text] at h
    by_cases h_empty : text = []
    · rw [h_empty]
      rfl
    · simpa [truthy, h_empty] using h
  · simp only [h_given, ne_eq, not_false_eq_true, if_true, Option.some.injEq] at h h_wanted
    rw [h_wanted, h]

theorem checkManifest_ends_iff (id : Text) {manifest : JsonValue js.Num} :
    (checkManifest panel id overrideName manifest).Ends faults ↔
      Handled panel faults overrideName manifest := by
  rw [checkManifest, Handled]
  cases h_deref : deref (some manifest) with
  | none => simp [Checked.Ends]
  | some field =>
    simp only [Option.some.injEq, exists_eq_left']
    cases h_version : isSupportedVersion (field "kubekExport".toList) with
    | false => simp [Checked.Ends]
    | true =>
      simp only [Bool.not_true, Bool.false_eq_true, if_false, true_imp_iff,
        ← desiredName_isSome_iff]
      cases h_desired : desiredName (field "server".toList) overrideName with
      | none => simp [Checked.Ends]
      | some name =>
        simp only [Option.isSome_some, true_and]
        by_cases h_name : name = []
        · subst h_name
          simp only [if_true, Checked.Ends, true_iff]
          exact fun other h_wanted h_ne => absurd (name_ne_of_wanted h_desired h_wanted) h_ne
        · simp only [h_name, if_false, desiredName_wanted h_desired h_name, forall_eq, ne_eq,
            not_false_eq_true, true_imp_iff]
          cases h_taken : nameTaken panel name with
          | true => simp [Checked.Ends]
          | false => simp [checkServer_ends_iff]

/-! ## The import -/

/-- What is in the manifest that an archive brings. -/
def ManifestOf (panel : Panel js) (destRoot : Path) (upload : Upload)
    (manifest : JsonValue js.Num) : Prop :=
  ∃ extractDir bytes, unpackArchive destRoot upload = some extractDir ∧
    extractDir.get EXPORT_MANIFEST_FILE = some (.file bytes) ∧ panel.parse bytes = some manifest

/-- An import ends with a server or leaves nothing behind where the manifest that the archive
    brings, if it brings one, is handled; and only there. -/
theorem importServer_settled_iff (panel : Panel js) (destRoot : Path) (id : Text) (faults : Faults)
    (file : Option Upload) (overrideName : Option Text) :
    (importServer panel destRoot id faults file overrideName).Settled ↔
      ∀ upload, file = some upload → ∀ manifest, ManifestOf panel destRoot upload manifest →
        Handled panel faults overrideName manifest := by
  cases file with
  | none => simp [importServer, settled_refused]
  | some upload =>
    simp only [Option.some.injEq, forall_eq', importServer, ManifestOf]
    cases h_unpack : unpackArchive destRoot upload with
    | none => simp [settled_refused]
    | some extractDir =>
      simp only [Option.some.injEq, exists_and_left, exists_eq_left']
      cases h_get : extractDir.get EXPORT_MANIFEST_FILE with
      | none => simp [settled_refused]
      | some node =>
        cases node with
        | folder es => simp [settled_refused]
        | file bytes =>
          simp only [Option.some.injEq, Node.file.injEq, exists_eq_left']
          cases h_parse : panel.parse bytes with
          | none => simp [settled_refused]
          | some manifest =>
            simp only [Option.some.injEq, forall_eq', ← checkManifest_ends_iff id]
            cases h_check : checkManifest panel id overrideName manifest with
            | refused e => simp [Checked.Ends, settled_refused]
            | thrown =>
              simp only [Checked.Ends, iff_false]
              exact not_settled_of_temp rfl fun h => by cases h
            | created row => simp [Checked.Ends, runImportMove_settled_iff]

/-! ## What is left behind -/

/-- A panel without blueprints and servers; every manifest it parses has this value. -/
def panelReading (manifest : JsonValue Numbers.naturals.Num) : Panel Numbers.naturals where
  stringify _ := []
  parse _ := some manifest
  blueprint _ := none
  servers := []

/-- An archive with nothing but a manifest, `null`. -/
def onlyManifest : Upload where
  buffer := []
  entries := [packed EXPORT_MANIFEST_FILE [0x6e, 0x75, 0x6c, 0x6c]]
  broken := false

/-- The manifest is the text `null`. -/
theorem null_manifest_left :
    ¬ (importServer (panelReading .null) ["tmp", "kubek-import-a"] "id".toList {} (some onlyManifest)
      none).Settled := by
  have h_temp : (importServer (panelReading .null) ["tmp", "kubek-import-a"] "id".toList {}
      (some onlyManifest) none).temp = some (.file EXPORT_MANIFEST_FILE [0x6e, 0x75, 0x6c, 0x6c] .empty) := by
    decide +kernel
  have h_thrown : (importServer (panelReading .null) ["tmp", "kubek-import-a"] "id".toList {}
      (some onlyManifest) none).result = .error .thrown := by
    rfl
  refine not_settled_of_temp h_temp ?_
  rw [h_thrown]
  exact fun h => by cases h

/-- A manifest with this `server`. -/
def manifestOf (server : Fields Numbers.naturals.Num) : JsonValue Numbers.naturals.Num :=
  .obj [("kubekExport".toList, .num (some 1)), ("server".toList, .obj server)]

-- The attempts are missing, so the row is refused by its NOT NULL column.
example :
    (importServer (panelReading (manifestOf [("blueprintId".toList, .str ['b']),
        ("restartOnError".toList, .obj [])])) ["tmp"] "id".toList {} (some onlyManifest)
        (some ['n'])).temp.isSome = true := by
  decide +kernel

-- The copy into the server folder stops, and the folder that was extracted stays.
example :
    (importServer (panelReading (manifestOf [("blueprintId".toList, .str ['b'])])) ["tmp"] "id".toList
        { copy := some none } (some onlyManifest) (some ['n'])).temp.isSome = true := by
  decide +kernel

end Kubek.Transfer
