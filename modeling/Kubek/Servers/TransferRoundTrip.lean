/-
  Kubek.Servers.TransferRoundTrip

  Import undoes export, up to the names that the import uses itself.

  The archive is unpacked into the folder that holds the upload, and what is left there in
  the end is copied. So the files of a server come back unless one of them is at or below
  `upload.zip`, or below the name of the manifest, where it is in the way of the
  panel's own file or goes with it. Everything that passes through the manifest comes back
  that JSON can hold.

  The unpacking is compared with that of `Kubek.Backups.Archive`, on paths instead of
  names, where the files come from one tree (`OfServer`): the source with the upload and
  the manifest put in.
-/

import Kubek.Servers.Transfer

namespace Kubek.Transfer

open FileTree
open FileTree.Folder
open JsJson JsText
open Kubek.Backups.Archive (Bytes relText OfServer Below)
open Kubek.Launch (assertLaunchVariablesSafe assertLaunchVariablesSafe_eq_ok_iff)
open Kubek.Paths

/-- The folder of a server: names that tell entries apart and that a disk accepts. -/
structure ServerFolder where
  root : Folder Bytes
  distinct : root.Distinct
  names : ∀ p, (root.fileAt p).isSome = true → ∀ n ∈ p, IsName n

/-! ## Names as paths -/

variable {destRoot p : Path}

theorem resolveFrom_names (h : ∀ n ∈ p, IsName n) : resolveFrom destRoot p = destRoot ++ p := by
  induction p generalizing destRoot with
  | nil => rw [List.append_nil]; rfl
  | cons n p ih =>
    have h_n := h n List.mem_cons_self
    have h_one : resolveOne destRoot n = destRoot ++ [n] := by
      rw [resolveOne, if_neg (not_or.mpr ⟨h_n.nonempty, h_n.notDot⟩), if_neg h_n.notDots]
    have h_rest := @ih (destRoot ++ [n]) fun m h_m => h m (List.mem_cons_of_mem _ h_m)
    rw [List.append_assoc, List.singleton_append, ← h_one] at h_rest
    exact h_rest

theorem relative_append (base rest : Path) : relative base (base ++ rest) = rest := by
  induction base with
  | nil => cases rest <;> rfl
  | cons b base ih => rw [List.cons_append, relative, if_pos rfl, ih]

theorem isInside_names (h : ∀ n ∈ p, IsName n) : isInside destRoot (destRoot ++ p) = true := by
  rw [isInside, relative_append]
  cases p with
  | nil => rfl
  | cons n p => simpa using (h n List.mem_cons_self).notDots

theorem split_relText (h_ne : p ≠ []) (h : ∀ n ∈ p, IsName n) : split '/' (relText p) = p :=
  split_intercalate h_ne (by simp) fun n h_n => (h n h_n).noSlash

/-- A path that reads like a name is that name. -/
theorem relText_eq_iff {name : String} (h_name : '/' ∉ name.toList) (h_ne : p ≠ [])
    (h : ∀ n ∈ p, IsName n) : relText p = name ↔ p = [name] := by
  constructor
  · intro h_eq
    have h_split := split_relText h_ne h
    rw [h_eq, split, splitChars_of_not_mem h_name, List.map_singleton, String.ofList_toList] at h_split
    exact h_split.symm
  · rintro rfl
    exact String.intercalate_singleton

/-- A packed file is written where its path says. -/
theorem onEntry_packed {bytes : Bytes} {f : Folder Bytes} (h_ne : p ≠ [])
    (h : ∀ n ∈ p, IsName n) :
    onEntry destRoot (packed (relText p) bytes) f = writeFile bytes p f := by
  have h_out : resolveFrom destRoot (split '/' (relText p)) = destRoot ++ p := by
    rw [split_relText h_ne h, resolveFrom_names h]
  have h_regular : isRegularFile (packed (relText p) bytes).header = true := by
    have h_mode : S_IFREG + 0o664 &&& S_IFMT = S_IFREG := by decide
    simp [isRegularFile, packed, h_mode]
  have h_file : (packed (relText p) bytes).header.type ≠ some "directory" := by simp [packed]
  have h_name : (packed (relText p) bytes).header.name = relText p := rfl
  simp only [onEntry, h_name, h_out, isInside_names h, List.drop_left, h_regular, h_file,
    Bool.not_true, Bool.false_eq_true, if_false]
  rfl

theorem walkArchive_packed {files : List (Path × Bytes)} {f : Folder Bytes}
    (h : ∀ file ∈ files, file.1 ≠ [] ∧ ∀ n ∈ file.1, IsName n) :
    walkArchive destRoot (files.map fun file => packed (relText file.1) file.2) f =
      Backups.Archive.unpack files f := by
  induction files generalizing f with
  | nil => rfl
  | cons file files ih =>
    obtain ⟨h_ne, h_names⟩ := h file List.mem_cons_self
    rw [List.map_cons, walkArchive, onEntry_packed h_ne h_names, Backups.Archive.unpack]
    congr 1
    funext g
    exact ih fun file' h_file' => h file' (List.mem_cons_of_mem _ h_file')

/-! ## What is packed -/

theorem mem_listRegularFiles {f : Folder Bytes} {rel : Path} (h : f.Distinct)
    {file : Path × Bytes} :
    file ∈ listRegularFiles rel f ↔ ∃ q bytes, file = (rel ++ q, bytes) ∧ f.fileAt q = some bytes := by
  induction f generalizing rel with
  | empty => simp [listRegularFiles]
  | file n bytes rest ih =>
    rw [listRegularFiles, List.mem_cons, ih h.2]
    constructor
    · rintro (rfl | ⟨q, b, rfl, h_q⟩)
      · exact ⟨[n], bytes, rfl, (fileAt_file h.1).mpr (.inl ⟨rfl, rfl⟩)⟩
      · exact ⟨q, b, rfl, (fileAt_file h.1).mpr (.inr h_q)⟩
    · rintro ⟨q, b, rfl, h_q⟩
      obtain ⟨rfl, rfl⟩ | h_q := (fileAt_file h.1).mp h_q
      · exact .inl rfl
      · exact .inr ⟨q, b, rfl, h_q⟩
  | folder n es rest ih_es ih =>
    rw [listRegularFiles, List.mem_append, ih_es h.2.1, ih h.2.2]
    constructor
    · rintro (⟨q, b, rfl, h_q⟩ | ⟨q, b, rfl, h_q⟩)
      · exact ⟨n :: q, b, by simp, (fileAt_folder h.1).mpr (.inl ⟨q, rfl, h_q⟩)⟩
      · exact ⟨q, b, rfl, (fileAt_folder h.1).mpr (.inr h_q)⟩
    · rintro ⟨q, b, rfl, h_q⟩
      obtain ⟨r, rfl, h_r⟩ | h_q := (fileAt_folder h.1).mp h_q
      · exact .inl ⟨r, b, by simp, h_r⟩
      · exact .inr ⟨q, b, rfl, h_q⟩

/-- The files of the server that an export packs. -/
def serverFiles (source : Folder Bytes) : List (Path × Bytes) :=
  (listRegularFiles [] source).filter fun file => relText file.1 ≠ EXPORT_MANIFEST_FILE

theorem ne_nil_of_fileAt {f : Folder Bytes} {bytes : Bytes} (h : f.fileAt p = some bytes) :
    p ≠ [] := by
  rintro rfl
  cases h

theorem mem_serverFiles (source : ServerFolder) {bytes : Bytes} :
    (p, bytes) ∈ serverFiles source.root ↔
      source.root.fileAt p = some bytes ∧ p ≠ [EXPORT_MANIFEST_FILE] := by
  rw [serverFiles, List.mem_filter, mem_listRegularFiles source.distinct]
  have h_text : source.root.fileAt p = some bytes →
      (relText p = EXPORT_MANIFEST_FILE ↔ p = [EXPORT_MANIFEST_FILE]) := fun h =>
    relText_eq_iff (by decide) (ne_nil_of_fileAt h) (source.names p (by rw [h]; rfl))
  constructor
  · rintro ⟨⟨q, b, h_eq, h_q⟩, h_ne⟩
    cases h_eq
    exact ⟨h_q, fun h_eq => of_decide_eq_true h_ne ((h_text h_q).mpr h_eq)⟩
  · rintro ⟨h_p, h_ne⟩
    exact ⟨⟨p, bytes, rfl, h_p⟩, decide_eq_true fun h_eq => h_ne ((h_text h_p).mp h_eq)⟩

/-! ## What the manifest brings back -/

variable {js : Numbers} {panel : Panel js} {server : IServer js} {exportedAt id name : Text}
  {overrideName : Option Text} {field : Text → Option (JsonValue js.Num)}

/-- A number that JSON can hold. -/
def storedNumber (n : js.Num) : JsonValue js.Num := if js.isFinite n then .num n else .null

/-- The `server` of an exported manifest as it is read back. -/
structure ReadBack (server : IServer js) (field : Text → Option (JsonValue js.Num)) : Prop where
  name : field "name".toList = some (.str server.name)
  restart : field "restartOnError".toList = some (.obj [
    ("enabled".toList, .bool server.restartOnError.enabled),
    ("attempts".toList, storedNumber server.restartOnError.attempts)])
  blueprintId : field "blueprintId".toList = some (.str server.blueprintId)
  blueprintVersion : field "blueprintVersion".toList = server.blueprintVersion.map .str
  runtimeKind : field "runtimeKind".toList = server.runtimeKind.map .str
  vars : field "variables".toList = some (.obj server.vars)

/-- The variables without `JAVA_PATH`. -/
def portable (vars : Fields js.Num) : Fields js.Num := vars.filter fun v => v.1 ≠ "JAVA_PATH".toList

/-- What the row of the new server has of the old one. -/
structure SameSettings (server row : IServer js) : Prop where
  restartOnError : row.restartOnError = server.restartOnError
  blueprintId : row.blueprintId = server.blueprintId
  blueprintVersion : row.blueprintVersion = server.blueprintVersion
  runtime : row.runtime = server.runtime
  vars : row.vars = portable server.vars

attribute [local simp] storedFields in
theorem storedFields_filter (vars : Fields js.Num) (keep : Text → Bool) :
    storedFields js (vars.filter fun v => keep v.1) =
      (storedFields js vars).filter fun v => keep v.1 := by
  induction vars with
  | nil => rfl
  | cons v vars ih =>
    obtain ⟨key, value⟩ := v
    by_cases h : keep key = true
    · simp [storedFields, h, ih]
    · simp [storedFields, h, ih]

/-- What `JSON` and the numbers promise for the manifest of the server. -/
structure ManifestTrip (panel : Panel js) (server : IServer js) (exportedAt : Text) : Prop where
  one_finite : js.isFinite (js.ofNat EXPORT_MANIFEST_VERSION) = true
  one_eq : js.eq (js.ofNat EXPORT_MANIFEST_VERSION) (js.ofNat EXPORT_MANIFEST_VERSION) = true
  finite_not_nan : ∀ n, js.isFinite n = true → js.isNaN n = false
  parsed : panel.parse (panel.stringify (exportManifest server exportedAt)) =
    some (stored js (exportManifest server exportedAt))

theorem lookupField_nil {N : Type} (key : Text) : lookupField ([] : Fields N) key = none := rfl

theorem lookupField_cons {N : Type} (k : Text) (v : JsonValue N) (fields : Fields N) (key : Text) :
    lookupField ((k, v) :: fields) key = if k = key then some v else lookupField fields key := by
  by_cases h : k = key
  · simp [lookupField, h]
  · simp [lookupField, h]

theorem lookupField_append {N : Type} (xs ys : Fields N) (key : Text) :
    lookupField (xs ++ ys) key = (lookupField xs key).or (lookupField ys key) := by
  induction xs with
  | nil => rfl
  | cons x xs ih =>
    obtain ⟨k, v⟩ := x
    rw [List.cons_append, lookupField_cons, lookupField_cons, ih]
    split
    · rfl
    · rfl

theorem lookupField_optionalText {N : Type} (key : String) (text : Option Text) (k : Text) :
    lookupField (optionalText key text : Fields N) k =
      if key.toList = k then text.map .str else none := by
  cases text with
  | none => exact (ite_self _).symm
  | some text => exact lookupField_cons _ _ [] k

theorem storedFields_append (xs ys : Fields js.Num) :
    storedFields js (xs ++ ys) = storedFields js xs ++ storedFields js ys := by
  induction xs with
  | nil => rfl
  | cons x xs ih =>
    obtain ⟨key, v⟩ := x
    rw [List.cons_append, storedFields, storedFields, ih, List.cons_append]

theorem storedFields_optionalText (key : String) (text : Option Text) :
    storedFields js (optionalText key text) = optionalText key text := by
  cases text with
  | none => rfl
  | some text => rfl

theorem readBack_stored (server : IServer js) :
    ReadBack server (lookupField (storedFields js (
      [("name".toList, .str server.name), ("restartOnError".toList, restartJson server.restartOnError),
        ("blueprintId".toList, .str server.blueprintId)] ++
      optionalText "blueprintVersion" server.blueprintVersion ++
      optionalText "runtimeKind" server.runtimeKind ++
      [("variables".toList, .obj server.vars)]))) := by
  simp only [storedFields_append, storedFields_optionalText, storedFields, stored, restartJson,
    server.vars_stored]
  constructor <;>
    simp +decide only [lookupField_append, lookupField_cons, lookupField_nil,
      lookupField_optionalText, storedNumber, if_true, if_false, Option.none_or,
      Option.or_none]

theorem importedRestart_readBack (h : ReadBack server field) :
    importedRestart field = (some (.bool server.restartOnError.enabled),
      some (storedNumber server.restartOnError.attempts)) := by
  simp +decide only [importedRestart, h.restart, deref, lookupField_cons, if_true, if_false]

theorem bindText_texts (text : Option Text) :
    bindText (JsonValue.nonNull (text.map .str) : Option (JsonValue js.Num)) = some text := by
  cases text <;> rfl

theorem importedVariables_readBack (h : ReadBack server field) :
    importedVariables field = portable server.vars := by
  rw [importedVariables, h.vars, spread, portable]

theorem storedFields_portable (server : IServer js) :
    storedFields js (portable server.vars) = portable server.vars := by
  have h_filter := storedFields_filter server.vars fun key => key ≠ "JAVA_PATH".toList
  rwa [server.vars_stored] at h_filter

theorem create_of_finite (id name : Text) (h : ReadBack server field)
    (h_finite : js.isFinite server.restartOnError.attempts = true)
    (h_nan : js.isNaN server.restartOnError.attempts = false) :
    ∃ row, create id name field = some row ∧ SameSettings server row := by
  have h_attempts : bindNumber (importedRestart field).2 = some server.restartOnError.attempts := by
    simp [importedRestart_readBack h, storedNumber, h_finite, bindNumber, h_nan]
  have h_id : bindText (field "blueprintId".toList) = some (some server.blueprintId) := by
    rw [h.blueprintId]
    rfl
  have h_version : bindText (field "blueprintVersion".toList) = some server.blueprintVersion := by
    rw [h.blueprintVersion]
    cases server.blueprintVersion <;> rfl
  have h_kind : bindText (JsonValue.nonNull (field "runtimeKind".toList)) =
      some server.runtimeKind := by
    rw [h.runtimeKind]
    exact bindText_texts server.runtimeKind
  simp only [create, h_attempts, h_id, h_version, h_kind, Option.bind_eq_bind, Option.bind_some]
  refine ⟨_, rfl, ?_⟩
  constructor
  · simp [importedRestart_readBack h, truthy]
  · rfl
  · rfl
  · rfl
  · show storedFields js (importedVariables field) = portable server.vars
    rw [importedVariables_readBack h, storedFields_portable]

theorem create_of_not_finite (id name : Text) (h : ReadBack server field)
    (h_finite : js.isFinite server.restartOnError.attempts = false) :
    create id name field = none := by
  have h_attempts : bindNumber (importedRestart field).2 = none := by
    simp [importedRestart_readBack h, storedNumber, h_finite, bindNumber]
  simp only [create, h_attempts, Option.bind_eq_bind, Option.bind_none]

theorem lookupField_filter {N : Type} (vars : Fields N) (dropped key : Text) :
    lookupField (vars.filter fun v => v.1 ≠ dropped) key =
      if key = dropped then none else lookupField vars key := by
  induction vars with
  | nil => simp [lookupField]
  | cons v vars ih =>
    obtain ⟨k, v⟩ := v
    by_cases h_k : k = dropped
    · rw [List.filter_cons_of_neg (by simpa using h_k), ih, lookupField_cons]
      by_cases h_key : key = dropped
      · rw [if_pos h_key, if_pos h_key]
      · rw [if_neg h_key, if_neg h_key, if_neg fun h_eq => h_key (h_eq.symm.trans h_k)]
    · rw [List.filter_cons_of_pos (by simpa using h_k), lookupField_cons, ih, lookupField_cons]
      by_cases h_key : key = dropped
      · rw [if_pos h_key, if_pos h_key, if_neg fun h_eq => h_k (h_eq.trans h_key)]
      · rw [if_neg h_key, if_neg h_key]

/-- What was safe with `JAVA_PATH` is safe without it. -/
theorem unsafeForBlueprint_readBack (h : ReadBack server field)
    (h_safe : ∀ blueprint, panel.blueprint server.blueprintId = some blueprint →
      assertLaunchVariablesSafe blueprint (toRecord server.vars) = .ok ()) :
    unsafeForBlueprint panel field = none := by
  have h_of : blueprintOf panel (field "blueprintId".toList) = panel.blueprint server.blueprintId := by
    rw [h.blueprintId]
    rfl
  rw [unsafeForBlueprint, h_of]
  cases h_blueprint : panel.blueprint server.blueprintId with
  | none => rfl
  | some blueprint =>
    have h_keys := (assertLaunchVariablesSafe_eq_ok_iff blueprint _).mp (h_safe blueprint h_blueprint)
    have h_ok : assertLaunchVariablesSafe blueprint (toRecord (importedVariables field)) = .ok () := by
      rw [assertLaunchVariablesSafe_eq_ok_iff]
      intro key h_key value h_value
      rw [toRecord, importedVariables_readBack h, portable, lookupField_filter] at h_value
      split at h_value
      · cases h_value
      · exact h_keys key h_key value h_value
    simp only [h_ok]

/-- The name of the new server: the override, or where it is blank that of the server. -/
def importName (server : IServer js) (overrideName : Option Text) : Text :=
  if trimChars (overrideName.getD []) ≠ [] then trimChars (trimChars (overrideName.getD []))
  else trimChars server.name

theorem desiredName_readBack {value : Option (JsonValue js.Num)} (h_deref : deref value = some field)
    (h : ReadBack server field) :
    desiredName value overrideName = some (importName server overrideName) := by
  rw [desiredName, importName]
  split
  · rfl
  · simp only [h_deref, h.name, truthy]
    by_cases h_empty : server.name = []
    · simp [h_empty, trimChars]
    · simp [h_empty]

/-- The import is allowed: the name is free and the variables are accepted. -/
structure Importable (panel : Panel js) (server : IServer js) (overrideName : Option Text) : Prop where
  named : importName server overrideName ≠ []
  free : nameTaken panel (importName server overrideName) = false
  safe : ∀ blueprint, panel.blueprint server.blueprintId = some blueprint →
    assertLaunchVariablesSafe blueprint (toRecord server.vars) = .ok ()

/-- What a row needs to go through a manifest. -/
structure Exportable (server : IServer js) : Prop where
  blueprint : server.blueprintId ≠ []
  attempts : js.isFinite server.restartOnError.attempts = true

theorem checkServer_readBack {value : Option (JsonValue js.Num)} (h_deref : deref value = some field)
    (h : ReadBack server field) (h_import : Importable panel server overrideName)
    (h_nan : ∀ n, js.isFinite n = true → js.isNaN n = false) :
    (Exportable server ∧
      ∃ row, checkServer panel id name value = .created row ∧ SameSettings server row) ∨
    (¬ Exportable server ∧ ∀ row, checkServer panel id name value ≠ .created row) := by
  simp only [checkServer, h_deref, unsafeForBlueprint_readBack h h_import.safe]
  by_cases h_id : server.blueprintId = []
  · refine .inr ⟨fun h_export => h_export.blueprint h_id, fun row h_row => ?_⟩
    have h_falsy : truthy (field "blueprintId".toList) = false := by
      rw [h.blueprintId, h_id]
      rfl
    simp only [h_falsy, Bool.not_false, if_true] at h_row
    cases h_row
  · have h_truthy : truthy (field "blueprintId".toList) = true := by
      rw [h.blueprintId]
      exact decide_eq_true h_id
    simp only [h_truthy, Bool.not_true, Bool.false_eq_true, if_false]
    cases h_finite : js.isFinite server.restartOnError.attempts with
    | true =>
      obtain ⟨row, h_row, h_same⟩ := create_of_finite id name h h_finite (h_nan _ h_finite)
      rw [h_row]
      exact .inl ⟨⟨h_id, h_finite⟩, row, rfl, h_same⟩
    | false =>
      rw [create_of_not_finite id name h h_finite]
      refine .inr ⟨fun h_export => ?_, fun row h_row => by cases h_row⟩
      rw [h_export.attempts] at h_finite
      cases h_finite

theorem deref_manifest (h_trip : ManifestTrip panel server exportedAt) :
    ∃ field, deref (some (stored js (exportManifest server exportedAt))) = some field ∧
      isSupportedVersion (field "kubekExport".toList) = true ∧
      ∃ inner, deref (field "server".toList) = some inner ∧ ReadBack server inner := by
  refine ⟨_, rfl, ?_, _, ?_, readBack_stored server⟩
  · simp +decide only [storedFields, stored, lookupField_cons, isSupportedVersion,
      h_trip.one_finite, h_trip.one_eq, if_true]
  · simp +decide only [storedFields, stored, lookupField_cons, deref, if_true, if_false]

theorem checkManifest_export (id : Text) (h_trip : ManifestTrip panel server exportedAt)
    (h_import : Importable panel server overrideName) :
    (Exportable server ∧ ∃ row,
      checkManifest panel id overrideName (stored js (exportManifest server exportedAt)) =
        .created row ∧ SameSettings server row) ∨
    (¬ Exportable server ∧ ∀ row,
      checkManifest panel id overrideName (stored js (exportManifest server exportedAt)) ≠
        .created row) := by
  obtain ⟨field, h_deref, h_version, inner, h_inner, h_back⟩ := deref_manifest h_trip
  simp only [checkManifest, h_deref, h_version, Bool.not_true, Bool.false_eq_true, if_false,
    desiredName_readBack h_inner h_back, h_import.named, h_import.free]
  exact checkServer_readBack h_inner h_back h_import h_trip.finite_not_nan

/-! ## The folder -/

/-- What is packed: the files of the server and the manifest. -/
def packedFiles (panel : Panel js) (server : IServer js) (source : Folder Bytes)
    (exportedAt : Text) : List (Path × Bytes) :=
  serverFiles source ++
    [([EXPORT_MANIFEST_FILE], panel.stringify (exportManifest server exportedAt))]

theorem isName_manifest : IsName EXPORT_MANIFEST_FILE :=
  ⟨by decide, by decide, by decide, by decide⟩

theorem unpackArchive_export (source : ServerFolder) (buffer : Bytes) :
    unpackArchive destRoot (exportServer panel server source.root exportedAt buffer) =
      (Backups.Archive.unpack (packedFiles panel server source.root exportedAt)
        (.file UPLOAD_FILE buffer .empty)).map (erase UPLOAD_FILE) := by
  have h_manifest : relText [EXPORT_MANIFEST_FILE] = EXPORT_MANIFEST_FILE := String.intercalate_singleton
  have h_entries : (exportServer panel server source.root exportedAt buffer).entries =
      (packedFiles panel server source.root exportedAt).map
        fun file => packed (relText file.1) file.2 := by
    simp [exportServer, packedFiles, serverFiles, h_manifest]
  have h_names : ∀ file ∈ packedFiles panel server source.root exportedAt,
      file.1 ≠ [] ∧ ∀ n ∈ file.1, IsName n := by
    intro file h_file
    obtain h_file | h_file := List.mem_append.mp h_file
    · have h_at := ((mem_serverFiles source).mp h_file).1
      exact ⟨ne_nil_of_fileAt h_at, source.names file.1 (by rw [h_at]; rfl)⟩
    · rw [List.mem_singleton.mp h_file]
      exact ⟨by simp, by simpa using isName_manifest⟩
  have h_buffer : (exportServer panel server source.root exportedAt buffer).buffer = buffer := rfl
  rw [unpackArchive, h_entries, h_buffer, walkArchive_packed h_names]
  cases Backups.Archive.unpack (packedFiles panel server source.root exportedAt)
    (.file UPLOAD_FILE buffer .empty) with
  | none => rfl
  | some f => rfl

/-- The files that the import has names of its own for are not there. -/
def Unclashing (source : Folder Bytes) : Prop :=
  ∀ p, (source.fileAt p).isSome = true → p.head? ≠ some UPLOAD_FILE ∧
    (p.head? = some EXPORT_MANIFEST_FILE → p = [EXPORT_MANIFEST_FILE])

/-- The last file that is written is there. -/
theorem fileAt_unpack_last {files : List (Path × Bytes)} {bytes : Bytes} {f f' : Folder Bytes}
    (h : Backups.Archive.unpack (files ++ [(p, bytes)]) f = some f') : f'.fileAt p = some bytes := by
  induction files generalizing f with
  | nil =>
    rw [List.nil_append, Backups.Archive.unpack, Option.bind_eq_some_iff] at h
    obtain ⟨next, h_next, h_rest⟩ := h
    cases h_rest
    rw [fileAt_writeFile h_next, if_pos rfl]
  | cons file files ih =>
    rw [List.cons_append, Backups.Archive.unpack, Option.bind_eq_some_iff] at h
    obtain ⟨next, h_next, h_rest⟩ := h
    exact ih h_rest

/-- All that can be in the extraction folder: the files of the server, the manifest and the
    upload. -/
def staging (panel : Panel js) (server : IServer js) (source : Folder Bytes) (exportedAt : Text)
    (buffer : Bytes) : Folder Bytes :=
  (source.put EXPORT_MANIFEST_FILE
    (.file (panel.stringify (exportManifest server exportedAt)))).put UPLOAD_FILE (.file buffer)

theorem upload_ne_manifest : UPLOAD_FILE ≠ EXPORT_MANIFEST_FILE := by decide

section Folder

variable {source : ServerFolder} {buffer : Bytes} {f : Folder Bytes}

theorem ofServer_packedFiles (panel : Panel js) (server : IServer js) (exportedAt : Text)
    (buffer : Bytes) (h : Unclashing source.root) :
    OfServer (staging panel server source.root exportedAt buffer)
      (packedFiles panel server source.root exportedAt) := by
  intro file h_file
  obtain h_file | h_file := List.mem_append.mp h_file
  · obtain ⟨h_at, h_ne⟩ := (mem_serverFiles source).mp h_file
    obtain ⟨h_upload, h_manifest⟩ := h file.1 (by rw [h_at]; rfl)
    cases h_path : file.1 with
    | nil => exact absurd h_path (ne_nil_of_fileAt h_at)
    | cons n p =>
      rw [h_path] at h_at h_ne h_upload h_manifest
      have h_n : n ≠ UPLOAD_FILE := fun h_eq => h_upload (by rw [h_eq]; rfl)
      have h_m : n ≠ EXPORT_MANIFEST_FILE := fun h_eq => h_ne (h_manifest (by rw [h_eq]; rfl))
      rw [staging, fileAt_congr (get_put_ne h_n), fileAt_congr (get_put_ne h_m), h_at]
  · rw [List.mem_singleton.mp h_file, staging,
      fileAt_congr (get_put_ne upload_ne_manifest.symm), fileAt_cons_file get_put_self, if_pos rfl]

theorem upload_below : Below (.file UPLOAD_FILE buffer .empty)
    (staging panel server source.root exportedAt buffer) := by
  constructor
  · intro p bytes h_p
    obtain ⟨rfl, rfl⟩ | h_p := (fileAt_file (by simp [names])).mp h_p
    · rw [staging, fileAt_cons_file get_put_self, if_pos rfl]
    · rw [fileAt_empty] at h_p
      cases h_p
  · intro p h_p
    cases p with
    | nil => rfl
    | cons n p =>
      by_cases h_n : UPLOAD_FILE = n
      · rw [isFolder_cons_file (a := buffer) (by simp [Folder.get, h_n])] at h_p
        cases h_p
      · rw [isFolder_cons_none (by simp [Folder.get, h_n])] at h_p
        cases h_p

/-- The folder of the new server: what was unpacked, without the panel's own two names. -/
theorem fileAt_imported : ((f.erase UPLOAD_FILE).erase EXPORT_MANIFEST_FILE).fileAt p =
    if p.head? = some EXPORT_MANIFEST_FILE ∨ p.head? = some UPLOAD_FILE then none
    else f.fileAt p := by
  rw [fileAt_erase, fileAt_erase]
  by_cases h_manifest : p.head? = some EXPORT_MANIFEST_FILE
  · rw [if_pos h_manifest, if_pos (.inl h_manifest)]
  · by_cases h_upload : p.head? = some UPLOAD_FILE
    · rw [if_neg h_manifest, if_pos h_upload, if_pos (.inr h_upload)]
    · rw [if_neg h_manifest, if_neg h_upload, if_neg (not_or.mpr ⟨h_manifest, h_upload⟩)]

/-- Where no name clashes, what is unpacked is the files of the server. -/
theorem fileAt_imported_of_unclashing (h : Unclashing source.root)
    (h_unpack : Backups.Archive.unpack (packedFiles panel server source.root exportedAt)
      (.file UPLOAD_FILE buffer .empty) = some f) :
    ((f.erase UPLOAD_FILE).erase EXPORT_MANIFEST_FILE).fileAt p =
      if p = [EXPORT_MANIFEST_FILE] then none else source.root.fileAt p := by
  have h_clash : p.head? = some EXPORT_MANIFEST_FILE ∨ p.head? = some UPLOAD_FILE →
      p ≠ [EXPORT_MANIFEST_FILE] → source.root.fileAt p = none := by
    intro h_head h_p
    cases h_at : source.root.fileAt p with
    | none => rfl
    | some bytes =>
      obtain ⟨h_upload, h_manifest⟩ := h p (by rw [h_at]; rfl)
      obtain h_head | h_head := h_head
      · exact absurd (h_manifest h_head) h_p
      · exact absurd h_head h_upload
  rw [fileAt_imported]
  by_cases h_p : p = [EXPORT_MANIFEST_FILE]
  · rw [if_pos h_p, h_p, if_pos (.inl rfl)]
  · rw [if_neg h_p]
    split
    · rename_i h_head
      exact (h_clash h_head h_p).symm
    · rename_i h_head
      obtain ⟨h_manifest, h_upload⟩ := not_or.mp h_head
      have h_of := ofServer_packedFiles panel server exportedAt buffer h
      rw [Backups.Archive.fileAt_unpack h_of h_unpack]
      cases h_at : source.root.fileAt p with
      | some bytes =>
        have h_mem : (p, bytes) ∈ packedFiles panel server source.root exportedAt :=
          List.mem_append_left _ ((mem_serverFiles source).mpr ⟨h_at, h_p⟩)
        rw [if_pos (List.mem_map.mpr ⟨_, h_mem, rfl⟩)]
        exact h_of _ h_mem
      | none =>
        have h_not : p ∉ (packedFiles panel server source.root exportedAt).map Prod.fst := by
          intro h_mem
          obtain ⟨file, h_file, rfl⟩ := List.mem_map.mp h_mem
          obtain h_file | h_file := List.mem_append.mp h_file
          · rw [((mem_serverFiles source).mp h_file).1] at h_at
            cases h_at
          · exact h_p (by rw [List.mem_singleton.mp h_file])
        rw [if_neg h_not]
        cases h_start : (Folder.file UPLOAD_FILE buffer .empty).fileAt p with
        | none => rfl
        | some bytes =>
          obtain ⟨rfl, -⟩ | h_empty := (fileAt_file (by simp [names])).mp h_start
          · exact absurd rfl h_upload
          · rw [fileAt_empty] at h_empty
            cases h_empty

theorem get_of_fileAt {n : String} {bytes : Bytes} (h : f.fileAt [n] = some bytes) :
    f.get n = some (.file bytes) := by
  cases h_get : f.get n with
  | none =>
    rw [fileAt_cons_none h_get] at h
    cases h
  | some node =>
    cases node with
    | file b =>
      rw [fileAt_cons_file h_get, if_pos rfl] at h
      rw [Option.some.inj h]
    | folder es =>
      rw [fileAt_cons_folder h_get, fileAt_nil] at h
      cases h

/-- What is unpacked has the manifest that was exported. -/
theorem get_manifest (h_unpack : Backups.Archive.unpack
      (packedFiles panel server source.root exportedAt) (.file UPLOAD_FILE buffer .empty) = some f) :
    (f.erase UPLOAD_FILE).get EXPORT_MANIFEST_FILE =
      some (.file (panel.stringify (exportManifest server exportedAt))) := by
  rw [get_erase, if_neg upload_ne_manifest.symm]
  exact get_of_fileAt (fileAt_unpack_last h_unpack)

end Folder

/-! ## The round trip -/

/-- The import has brought the server back. -/
structure Restored (server : IServer js) (source : Folder Bytes) (after : After js) : Prop where
  imported : after.result = .ok .SUCCESS
  settings : ∃ row, after.row = some row ∧ SameSettings server row
  files : ∃ folder, after.folder = some folder ∧ ∀ p, folder.fileAt p =
    if p = [EXPORT_MANIFEST_FILE] then none else source.fileAt p

variable {source : ServerFolder} {buffer : Bytes}

/-- An import of an export goes through where the unpacking and the manifest do. -/
theorem importServer_export (destRoot : Path) (id : Text) (source : ServerFolder) (buffer : Bytes)
    (overrideName : Option Text) (h_trip : ManifestTrip panel server exportedAt)
    (after : After js)
    (h_after : importServer panel destRoot id {}
      (some (exportServer panel server source.root exportedAt buffer)) overrideName = after) :
    (∃ f row, Backups.Archive.unpack (packedFiles panel server source.root exportedAt)
        (.file UPLOAD_FILE buffer .empty) = some f ∧
      checkManifest panel id overrideName (stored js (exportManifest server exportedAt)) =
        .created row ∧
      after.result = .ok .SUCCESS ∧ after.row = some row ∧
      after.folder = some ((f.erase UPLOAD_FILE).erase EXPORT_MANIFEST_FILE)) ∨
    after.result ≠ .ok .SUCCESS ∧
      (Backups.Archive.unpack (packedFiles panel server source.root exportedAt)
          (.file UPLOAD_FILE buffer .empty) = none ∨
        ∀ row, checkManifest panel id overrideName (stored js (exportManifest server exportedAt)) ≠
          .created row) := by
  subst h_after
  rw [importServer, unpackArchive_export]
  cases h_unpack : Backups.Archive.unpack (packedFiles panel server source.root exportedAt)
      (.file UPLOAD_FILE buffer .empty) with
  | none => exact .inr ⟨fun h => (by cases h), .inl rfl⟩
  | some f =>
    simp only [Option.map_some, get_manifest h_unpack, h_trip.parsed]
    cases h_check : checkManifest panel id overrideName (stored js (exportManifest server exportedAt)) with
    | refused e => exact .inr ⟨fun h => (by cases h), .inr fun row h => by cases h⟩
    | thrown => exact .inr ⟨fun h => (by cases h), .inr fun row h => by cases h⟩
    | created row => exact .inl ⟨f, row, rfl, rfl, rfl, rfl, rfl⟩

theorem unpack_of_unclashing (panel : Panel js) (server : IServer js) (exportedAt : Text)
    (buffer : Bytes) (h : Unclashing source.root) :
    ∃ f, Backups.Archive.unpack (packedFiles panel server source.root exportedAt)
      (.file UPLOAD_FILE buffer .empty) = some f :=
  Backups.Archive.unpack_isSome upload_below (ofServer_packedFiles panel server exportedAt buffer h)

/-- A server that comes back with all its files has none that clashes. -/
theorem unclashing_of_files {f : Folder Bytes} (h : ∀ p,
    ((f.erase UPLOAD_FILE).erase EXPORT_MANIFEST_FILE).fileAt p =
      if p = [EXPORT_MANIFEST_FILE] then none else source.root.fileAt p) :
    Unclashing source.root := by
  intro p h_p
  have h_files := h p
  rw [fileAt_imported] at h_files
  by_cases h_manifest : p = [EXPORT_MANIFEST_FILE]
  · rw [h_manifest]
    exact ⟨fun h_head => upload_ne_manifest (Option.some.inj h_head).symm, fun _ => rfl⟩
  · rw [if_neg h_manifest] at h_files
    have h_head : ¬ (p.head? = some EXPORT_MANIFEST_FILE ∨ p.head? = some UPLOAD_FILE) := by
      intro h_head
      rw [if_pos h_head] at h_files
      rw [← h_files] at h_p
      cases h_p
    obtain ⟨h_head_manifest, h_upload⟩ := not_or.mp h_head
    exact ⟨h_upload, fun h_eq => absurd h_eq h_head_manifest⟩

/-- The manifest of the lobby, as it is written. -/
def lobbyText : Bytes :=
  ("\n".intercalate [
    "\x7b",
    "  \x22kubekExport\x22: 1,",
    "  \x22exportedAt\x22: \x222026-01-01T00:00:00.000Z\x22,",
    "  \x22server\x22: \x7b",
    "    \x22name\x22: \x22lobby\x22,",
    "    \x22restartOnError\x22: \x7b",
    "      \x22enabled\x22: true,",
    "      \x22attempts\x22: 3",
    "    \x7d,",
    "    \x22blueprintId\x22: \x22paper\x22,",
    "    \x22variables\x22: \x7b",
    "      \x22JAVA_PATH\x22: \x22/opt/java\x22",
    "    \x7d",
    "  \x7d",
    "\x7d"]).toList.map fun c => UInt8.ofNat c.toNat

def lobby : IServer Numbers.naturals where
  id := "a".toList
  name := "lobby".toList
  restartOnError := { enabled := true, attempts := some 3 }
  blueprintId := "paper".toList
  blueprintVersion := none
  runtimeKind := none
  vars := [("JAVA_PATH".toList, .str "/opt/java".toList)]
  vars_stored := rfl

def exportDate : Text := "2026-01-01T00:00:00.000Z".toList

/-- The panel of the lobby, which writes and reads this one manifest. -/
def lobbyPanel : Panel Numbers.naturals where
  stringify _ := lobbyText
  parse _ := some (stored Numbers.naturals (exportManifest lobby exportDate))
  blueprint _ := none
  servers := [lobby]

/-- A server folder with one file in a folder. -/
def worldFolder : ServerFolder where
  root := .folder "world" (.file "level.dat" [1] .empty) .empty
  distinct := by simp [Distinct, names]
  names := by
    intro p h n h_n
    obtain ⟨bytes, h_p⟩ := Option.isSome_iff_exists.mp h
    obtain ⟨q, rfl, h_q⟩ | h_p := (fileAt_folder (by simp [names])).mp h_p
    · obtain ⟨rfl, -⟩ | h_q := (fileAt_file (by simp [names])).mp h_q
      · have h_names : n = "world" ∨ n = "level.dat" := by simpa using h_n
        obtain rfl | rfl := h_names
        · exact ⟨by decide, by decide, by decide, by decide⟩
        · exact ⟨by decide, by decide, by decide, by decide⟩
      · rw [fileAt_empty] at h_q
        cases h_q
    · rw [fileAt_empty] at h_p
      cases h_p

theorem lobby_trip : ManifestTrip lobbyPanel lobby exportDate where
  one_finite := rfl
  one_eq := rfl
  finite_not_nan n h := by
    cases n with
    | none => cases h
    | some n => rfl
  parsed := rfl

/-- A server folder with an `upload.zip` of its own. -/
def uploadFolder : ServerFolder where
  root := .file UPLOAD_FILE [1] .empty
  distinct := by simp [Distinct, names]
  names := by
    intro p h n h_n
    obtain ⟨bytes, h_p⟩ := Option.isSome_iff_exists.mp h
    obtain ⟨rfl, -⟩ | h_p := (fileAt_file (by simp [names])).mp h_p
    · rw [List.mem_singleton.mp h_n]
      exact ⟨by decide, by decide, by decide, by decide⟩
    · rw [fileAt_empty] at h_p
      cases h_p

end Kubek.Transfer
