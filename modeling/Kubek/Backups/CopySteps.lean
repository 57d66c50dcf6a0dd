/-
  Kubek.Backups.CopySteps

  What one step of the backup work can do to the rows, the objects and the work in
  flight, said once. `step_effect` inverts `step` over well formed tables; every
  invariant of the copies is a case analysis over the cases of `Effect`.
-/

import Kubek.Backups.Copies
import Kubek.Lib.Suspended
import Kubek.Lib.Machine

namespace Kubek.Backups.Copies

open KeyedRows

/-! ## Keys -/

section Keys

/-- What stands behind the last slash. -/
theorem eq_of_last_slash {a b x y : List Char} (hx : '/' ∉ x) (hy : '/' ∉ y)
    (h : a ++ '/' :: x = b ++ '/' :: y) : x = y := by
  have h_tail : ∀ (a x : List Char), '/' ∉ x →
      (a ++ '/' :: x).reverse.takeWhile (· != '/') = x.reverse := by
    intro a x hx
    have h_rev : (a ++ '/' :: x).reverse = x.reverse ++ '/' :: a.reverse := by simp
    have h_all : ∀ c ∈ x.reverse, (c != '/') = true := by
      intro c hc
      have h_ne : c ≠ '/' := by
        rintro rfl
        exact hx (List.mem_reverse.mp hc)
      simpa using h_ne
    rw [h_rev, List.takeWhile_append_of_pos h_all]
    simp
  have h_rev : x.reverse = y.reverse := by
    rw [← h_tail a x hx, ← h_tail b y hy, h]
  exact List.reverse_injective h_rev

/-- The file name of an archive. -/
def archiveName (record : BackupRecord) : List Char :=
  record.id.text.toList ++ '.' :: (archiveExtension record.format).toList

theorem slash_notMem_archiveName (record : BackupRecord) : '/' ∉ archiveName record := by
  intro h
  obtain h | h := List.mem_append.mp h
  · exact (record.id.plain _ h).1 rfl
  · cases h_format : record.format <;> simp [h_format, archiveExtension] at h

/-- The folder of a storage and the server come before the last slash of a key. -/
theorem toList_keyFor (folder : String) (record : BackupRecord) :
    ∃ front, (keyFor folder (archiveKey record)).toList = front ++ '/' :: archiveName record := by
  have h_key : (archiveKey record).toList =
      record.serverId.toList ++ '/' :: archiveName record := by
    simp [archiveKey, archiveName]
  by_cases h_folder : folder.isEmpty
  · exact ⟨_, by rw [keyFor, if_pos h_folder]; exact h_key⟩
  · refine ⟨folder.toList ++ '/' :: record.serverId.toList, ?_⟩
    rw [keyFor, if_neg h_folder]
    simp [h_key]

/-- Archives of two backups never share a key, wherever their storage keeps them. -/
theorem id_eq_of_keyFor {folder folder' : String} {record record' : BackupRecord}
    (h : keyFor folder (archiveKey record) = keyFor folder' (archiveKey record')) :
    record.id = record'.id := by
  obtain ⟨front, h_key⟩ := toList_keyFor folder record
  obtain ⟨front', h_key'⟩ := toList_keyFor folder' record'
  have h_name : archiveName record = archiveName record' := by
    apply eq_of_last_slash (slash_notMem_archiveName record) (slash_notMem_archiveName record')
    rw [← h_key, ← h_key', h]
  -- an id has no dot, so it is what comes before the first one
  have h_id : ∀ r : BackupRecord, (archiveName r).takeWhile (· != '.') = r.id.text.toList := by
    intro r
    have h_all : ∀ c ∈ r.id.text.toList, (c != '.') = true := by
      intro c hc
      simpa using (r.id.plain c hc).2
    rw [archiveName, List.takeWhile_append_of_pos h_all]
    simp
  have h_text : record.id.text.toList = record'.id.text.toList := by
    rw [← h_id, ← h_id, h_name]
  cases h_r : record.id
  cases h_r' : record'.id
  simp only [h_r, h_r', String.toList_inj] at h_text
  simp [h_text]

end Keys

/-! ## Tables -/

/-- A remote row has the key of its backup. -/
def Keyed (copy : StoredCopy) : Prop :=
  copy.storageId.isSome = true → ∃ folder record,
    record.id = copy.backupId ∧ copy.objectKey = keyFor folder (archiveKey record)

/-- What the schema of both tables enforces, and the keys of remote rows. -/
structure WellFormed (s : State) : Prop where
  backupIds : UniqueCol (·.id) s.backups
  copyIds : UniqueCol (·.id) s.copies
  locations : UniqueCol (fun c => (c.backupId, c.storageId)) s.copies
  fresh : ∀ c ∈ s.copies, c.id < s.nextCopy
  owned : ∀ c ∈ s.copies, ∃ b ∈ s.backups, b.id = c.backupId
  keyed : ∀ c ∈ s.copies, Keyed c

/-! ## Classes of tasks -/

/-- The copies a caller of `remove` still has ahead. -/
def RemoveCaller.rest : RemoveCaller → List StoredCopy
  | .request | .dropLocal _ => []
  | .removeAll _ rest | .prune _ rest => rest

/-- The copies a task removes or is going to remove. -/
def Task.pending : Task → List StoredCopy
  | .removing caller copy _ => copy :: caller.rest
  | .removed caller => caller.rest
  | _ => []

/-- The task is neither an upload nor past the removal of an archive. -/
def Task.plain : Task → Bool
  | .uploading _ _ _ => false
  | .removing _ _ gone => !gone
  | _ => true

namespace State

variable (s : State)

theorem taskAt_eq : s.taskAt = Suspended.get .done s.tasks := rfl

theorem taskAt_mem {s : State} {i : Nat} (h : s.taskAt i ≠ .done) : s.taskAt i ∈ s.tasks := by
  have h_lt : i < s.tasks.length := Suspended.lt_of_get_ne _ h
  simp [taskAt, h_lt]

@[simp] theorem taskAt_length : s.taskAt s.tasks.length = .done := Suspended.get_length _ _

theorem taskAt_push {r : State × Task} (h : r.1.tasks = s.tasks) :
    (push r).taskAt = Function.update s.taskAt s.tasks.length r.2 := by
  have h_push : (push r).tasks = s.tasks ++ [r.2] := by rw [← h]; rfl
  rw [taskAt_eq, h_push, Suspended.get_push]
  rfl

theorem taskAt_resume {r : State × Task} {i : Nat} (h_at : s.taskAt i ≠ .done)
    (h : r.1.tasks = s.tasks) : (resume i r).taskAt = Function.update s.taskAt i r.2 := by
  have h_set : (resume i r).tasks = s.tasks.set i r.2 := by rw [← h]; rfl
  rw [taskAt_eq, h_set, Suspended.get_set _ (Suspended.lt_of_get_ne _ h_at)]
  rfl

/-! ## Lookups -/

variable {s}

theorem findAt_mem {id : Uuid} {storageId : Option StorageId} {c : StoredCopy}
    (h : s.findAt id storageId = some c) :
    c ∈ s.copies ∧ c.backupId = id ∧ c.storageId = storageId :=
  ⟨List.mem_of_find?_eq_some h, by simpa using List.find?_some h⟩

theorem findAt_eq_none {id : Uuid} {storageId : Option StorageId}
    (h : s.findAt id storageId = none) :
    ∀ c ∈ s.copies, ¬ (c.backupId = id ∧ c.storageId = storageId) := by
  intro c hc
  have h_none := List.find?_eq_none.mp h c hc
  simpa using h_none

theorem findBackup_mem {id : Uuid} {b : BackupRecord} (h : s.findBackup id = some b) :
    b ∈ s.backups ∧ b.id = id :=
  ⟨List.mem_of_find?_eq_some h, by simpa using List.find?_some h⟩

theorem findCopy_mem {id : Nat} {c : StoredCopy} (h : s.findCopy id = some c) :
    c ∈ s.copies ∧ c.id = id :=
  ⟨List.mem_of_find?_eq_some h, by simpa using List.find?_some h⟩

theorem findCopy_isNone {id : Nat} (h : (s.findCopy id).isNone = true) :
    ∀ c ∈ s.copies, c.id ≠ id := by
  intro c hc
  have h_none := List.find?_eq_none.mp (Option.isNone_iff_eq_none.mp h) c hc
  simpa using h_none

theorem localArchive_mem {id : Uuid} {c : StoredCopy} (h : s.localArchive id = some c) :
    c ∈ s.copies ∧ c.backupId = id ∧ c.storageId = none ∧ c.status = .ready := by
  rw [localArchive, Option.filter_eq_some_iff] at h
  obtain ⟨h_mem, h_id, h_none⟩ := findAt_mem h.1
  have h_ready : c.status = .ready ∧ c.objectKey ∈ s.disk := by simpa using h.2
  exact ⟨h_mem, h_id, h_none, h_ready.1⟩

theorem mem_copiesOf {id : Uuid} {c : StoredCopy} :
    c ∈ s.copiesOf id ↔ c ∈ s.copies ∧ c.backupId = id := by
  simp [copiesOf]

/-- An insert that the schema accepts. -/
theorem createCopy_eq_some {id : Uuid} {storageId : Option StorageId} {key : String}
    {status : BackupCopyStatus} {s' : State}
    (h : s.createCopy id storageId key status = some s') :
    (∃ b ∈ s.backups, b.id = id) ∧ s.findAt id storageId = none ∧
      s' = { s with
        copies := s.copies ++ [⟨s.nextCopy, id, storageId, key, status⟩]
        nextCopy := s.nextCopy + 1 } := by
  simp only [createCopy] at h
  split at h
  · cases h
  · rename_i h_ok
    simp only [Bool.or_eq_true, not_or, Bool.not_eq_true, Option.isSome_eq_false_iff,
      Option.isNone_iff_eq_none] at h_ok
    obtain ⟨b, h_b⟩ := Option.ne_none_iff_exists'.mp h_ok.1
    obtain ⟨h_mem, h_id⟩ := findBackup_mem h_b
    exact ⟨⟨b, h_mem, h_id⟩, h_ok.2, by simpa using h.symm⟩

/-- An insert whose backup is there and whose location is free. -/
theorem createCopy_isSome {id : Uuid} {storageId : Option StorageId} (key : String)
    (status : BackupCopyStatus) (h_owner : ∃ b ∈ s.backups, b.id = id)
    (h_free : ∀ c ∈ s.copies, ¬ (c.backupId = id ∧ c.storageId = storageId)) :
    (s.createCopy id storageId key status).isSome = true := by
  obtain ⟨b, h_b, h_id⟩ := h_owner
  have h_found : (s.findBackup id).isSome = true := by
    rw [findBackup, List.find?_isSome]
    exact ⟨b, h_b, by simpa using h_id⟩
  have h_none : s.findAt id storageId = none := by
    rw [findAt, List.find?_eq_none]
    intro c hc
    simpa using h_free c hc
  rw [createCopy, if_neg]
  · rfl
  · simp [h_none, Option.isSome_iff_ne_none.mp h_found]

end State

/-! ## The cases of a step -/

open State

/-- Rows and objects are left alone; no backup becomes completed and none is lost. -/
structure Keeps (s s' : State) : Prop where
  copies : s'.copies = s.copies
  nextCopy : s'.nextCopy = s.nextCopy
  objects : s'.objects = s.objects
  backupIds : UniqueCol (·.id) s.backups → UniqueCol (·.id) s'.backups
  kept : ∀ b ∈ s.backups, ∃ b' ∈ s'.backups, b'.id = b.id
  completed : ∀ b ∈ s'.backups, b.status = .completed →
    ∃ b₀ ∈ s.backups, b₀.id = b.id ∧ b₀.status = .completed

/-- The upload a step gets past the checks of `uploadCopy`. -/
def State.startsCopy (s : State) (record : BackupRecord) (storageId : StorageId)
    (folder : Option String) : Option (Uuid × StorageId) :=
  match s.uploadCopy record storageId folder with
  | .started _ _ => some (record.id, storageId)
  | _ => none

/-- The backup and the storage whose upload the step starts. -/
def State.startsUpload (s : State) : Event → Option (Uuid × StorageId)
  | .upload id storageId folder =>
      (s.findBackup id).bind fun record => s.startsCopy record storageId folder
  | .afterCreate i policy folder =>
      match s.taskAt i, policy.storageId with
      | .packed record, some storageId => s.startsCopy record storageId folder
      | _, _ => none
  | _ => none

/-- The row an upload creates. -/
def Upload.row (up : Upload) : StoredCopy :=
  ⟨up.copy, up.backup.id, some up.storageId, up.objectKey, .uploading⟩

/-- What a step may do to the tables, the objects and the work in flight. The task `i`
    goes on and is `t` afterwards. -/
inductive Effect (s : State) (e : Event) (s' : State) : Prop
  /-- Requests, loops and leases. -/
  | aside (i : Nat) (t : Task) (h_old : (s.taskAt i).plain = true) (h_new : t.plain = true)
      (tasks : s'.taskAt = Function.update s.taskAt i t) (keeps : Keeps s s')
      (pending : ∀ c ∈ t.pending, c ∈ (s.taskAt i).pending ∨ c ∈ s.copies)
  /-- A new archive gets its row. -/
  | archived (i : Nat) (record : BackupRecord) (h_at : s.taskAt i = .packing record)
      (tasks : s'.taskAt = Function.update s.taskAt i
        (.packed { record with status := .completed }))
      (h_free : s.findAt record.id none = none)
      (h_owner : ∃ b ∈ s.backups, b.id = record.id)
      (copies : s'.copies =
        s.copies ++ [⟨s.nextCopy, record.id, none, archiveKey record, .ready⟩])
      (nextCopy : s'.nextCopy = s.nextCopy + 1) (objects : s'.objects = s.objects)
      (backups : s'.backups = modifyRow (·.id) record.id
        (fun b => { b with status := .completed }) s.backups)
  /-- An upload gets past its checks and replaces a row that is not ready. -/
  | starts (i : Nat) (caller : UploadCaller) (up : Upload) (folder : String)
      (h_old : (s.taskAt i).plain = true)
      (tasks : s'.taskAt = Function.update s.taskAt i (.uploading caller up .sending))
      (h_event : s.startsUpload e = some (up.backup.id, up.storageId))
      (h_copy : up.copy = s.nextCopy)
      (h_key : up.objectKey = keyFor folder (archiveKey up.backup))
      (h_local : ∃ c ∈ s.copies, c.backupId = up.backup.id ∧ c.storageId = none ∧
        c.status = .ready)
      (h_replaced : ∀ c ∈ s.copies, c.backupId = up.backup.id →
        c.storageId = some up.storageId → c.status ≠ .ready)
      (copies : s'.copies = s.copies.filter (fun c =>
        ¬ (c.backupId = up.backup.id ∧ c.storageId = some up.storageId)) ++ [up.row])
      (nextCopy : s'.nextCopy = s.nextCopy + 1) (objects : s'.objects = s.objects)
      (backups : s'.backups = s.backups)
  /-- The object of an upload arrives. -/
  | put (i : Nat) (caller : UploadCaller) (up : Upload)
      (h_at : s.taskAt i = .uploading caller up .sending)
      (tasks : s'.taskAt = Function.update s.taskAt i (.uploading caller up .sent))
      (objects : s'.objects = (up.storageId, up.objectKey) :: s.objects)
      (copies : s'.copies = s.copies) (nextCopy : s'.nextCopy = s.nextCopy)
      (backups : s'.backups = s.backups)
  /-- An upload is through and its row is ready. -/
  | ready (i : Nat) (caller : UploadCaller) (up : Upload)
      (h_at : s.taskAt i = .uploading caller up .sent)
      (tasks : s'.taskAt = Function.update s.taskAt i (.uploaded caller up.backup))
      (copies : s'.copies = modifyRow (·.id) up.copy (fun c => { c with status := .ready })
        s.copies)
      (nextCopy : s'.nextCopy = s.nextCopy) (objects : s'.objects = s.objects)
      (backups : s'.backups = s.backups)
  /-- An upload is through and finds its row gone. -/
  | cleans (i : Nat) (caller : UploadCaller) (up : Upload)
      (h_at : s.taskAt i = .uploading caller up .sent)
      (h_gone : ∀ c ∈ s.copies, c.id ≠ up.copy)
      (tasks : s'.taskAt = Function.update s.taskAt i (.uploading caller up .cleaning))
      (keeps : Keeps s s')
  /-- The object of an upload whose row is gone goes. -/
  | cleaned (i : Nat) (caller : UploadCaller) (up : Upload)
      (h_at : s.taskAt i = .uploading caller up .cleaning)
      (tasks : s'.taskAt = Function.update s.taskAt i (.uploading caller up .cleaned))
      (objects : ∀ o, o ∈ s'.objects ↔ o ∈ s.objects ∧ o ≠ (up.storageId, up.objectKey))
      (copies : s'.copies = s.copies) (nextCopy : s'.nextCopy = s.nextCopy)
      (backups : s'.backups = s.backups)
  /-- An upload throws. -/
  | fails (i : Nat) (caller : UploadCaller) (up : Upload) (phase : UploadPhase)
      (he : e = .uploadFails i) (h_at : s.taskAt i = .uploading caller up phase)
      (tasks : s'.taskAt = Function.update s.taskAt i (uploadThrew caller up.backup))
      (copies : s'.copies = modifyRow (·.id) up.copy (fun c => { c with status := .failed })
        s.copies)
      (nextCopy : s'.nextCopy = s.nextCopy) (objects : s'.objects = s.objects)
      (backups : s'.backups = s.backups)
  /-- The archive of a copy goes, on the disk or in its storage. -/
  | archiveGone (i : Nat) (caller : RemoveCaller) (copy : StoredCopy)
      (h_at : s.taskAt i = .removing caller copy false)
      (tasks : s'.taskAt = Function.update s.taskAt i (.removing caller copy true))
      (objects : ∀ o, o ∈ s'.objects ↔
        o ∈ s.objects ∧ ¬ (copy.storageId = some o.1 ∧ copy.objectKey = o.2))
      (copies : s'.copies = s.copies) (nextCopy : s'.nextCopy = s.nextCopy)
      (backups : s'.backups = s.backups)
  /-- The row of a removed copy goes, and the backup with its last row. -/
  | rowGone (i : Nat) (caller : RemoveCaller) (copy : StoredCopy)
      (he : e = .removeResolves i) (h_at : s.taskAt i = .removing caller copy true)
      (tasks : s'.taskAt = Function.update s.taskAt i (.removed caller))
      (copies : s'.copies = s.copies.filter (·.id ≠ copy.id))
      (nextCopy : s'.nextCopy = s.nextCopy) (objects : s'.objects = s.objects)
      (backups : ∀ b, b ∈ s'.backups ↔ b ∈ s.backups ∧
        (b.id = copy.backupId → ∃ c ∈ s'.copies, c.backupId = b.id))
      (backupIds : UniqueCol (·.id) s.backups → UniqueCol (·.id) s'.backups)
  /-- `removeAll` is through. -/
  | backupGone (i : Nat) (id : Uuid) (h_old : (s.taskAt i).plain = true)
      (tasks : s'.taskAt = Function.update s.taskAt i .done)
      (copies : s'.copies = s.copies.filter (·.backupId ≠ id))
      (backups : s'.backups = s.backups.filter (·.id ≠ id))
      (nextCopy : s'.nextCopy = s.nextCopy) (objects : s'.objects = s.objects)

section Inversion

variable {s s' : State} {e : Event}

theorem Keeps.refl (s : State) : Keeps s s where
  copies := rfl
  nextCopy := rfl
  objects := rfl
  backupIds h := h
  kept b hb := ⟨b, hb, rfl⟩
  completed b hb h := ⟨b, hb, rfl, h⟩

/-- The same tables and objects. -/
theorem Keeps.of_same (backups : s'.backups = s.backups) (copies : s'.copies = s.copies)
    (nextCopy : s'.nextCopy = s.nextCopy) (objects : s'.objects = s.objects) : Keeps s s' where
  copies := copies
  nextCopy := nextCopy
  objects := objects
  backupIds h := backups ▸ h
  kept b hb := ⟨b, backups ▸ hb, rfl⟩
  completed b hb h := ⟨b, backups ▸ hb, rfl, h⟩

/-- A write to the row of one backup that does not complete it. -/
theorem Keeps.of_modify {id : Uuid} {f : BackupRecord → BackupRecord}
    (h_id : ∀ b, (f b).id = b.id)
    (h_status : ∀ b, (f b).status = .completed → b.status = .completed)
    (backups : s'.backups = modifyRow (·.id) id f s.backups) (copies : s'.copies = s.copies)
    (nextCopy : s'.nextCopy = s.nextCopy) (objects : s'.objects = s.objects) : Keeps s s' where
  copies := copies
  nextCopy := nextCopy
  objects := objects
  backupIds h := by
    rw [backups]
    exact h.modifyRow_same fun b _ => h_id b
  kept b hb := by
    by_cases h_b : b.id = id
    · exact ⟨f b, by rw [backups, mem_modifyRow]; exact .inl ⟨b, hb, h_b, rfl⟩, h_id b⟩
    · exact ⟨b, by rw [backups, mem_modifyRow]; exact .inr ⟨hb, h_b⟩, rfl⟩
  completed b hb h := by
    rw [backups, mem_modifyRow] at hb
    obtain ⟨b₀, h_b₀, -, rfl⟩ | ⟨h_b, -⟩ := hb
    · exact ⟨b₀, h_b₀, (h_id b₀).symm, h_status b₀ h⟩
    · exact ⟨b, h_b, rfl, h⟩

/-! ### Work that only moves on -/

/-- What a call leaves behind that touches neither rows nor objects: work that is not an
    upload and holds no copies but those it held before and rows. -/
structure Goes (s : State) (pending : List StoredCopy) (r : State × Task) : Prop where
  keeps : Keeps s r.1
  tasks : r.1.tasks = s.tasks
  plain : r.2.plain = true
  pending : ∀ c ∈ r.2.pending, c ∈ pending ∨ c ∈ s.copies

/-- A call that only hands over another task. -/
theorem Goes.of_task {pending : List StoredCopy} {t : Task} (h_plain : t.plain = true)
    (h_pending : ∀ c ∈ t.pending, c ∈ pending ∨ c ∈ s.copies) : Goes s pending (s, t) :=
  ⟨Keeps.refl s, rfl, h_plain, h_pending⟩

theorem Effect.of_goes_push {r : State × Task} (h : Goes s [] r) : Effect s e (push r) := by
  refine .aside s.tasks.length r.2 (by simp [Task.plain]) h.plain (taskAt_push s h.tasks) ?_ ?_
  · have h_keeps := h.keeps
    exact ⟨h_keeps.copies, h_keeps.nextCopy, h_keeps.objects, h_keeps.backupIds, h_keeps.kept,
      h_keeps.completed⟩
  · intro c hc
    obtain h_none | h_row := h.pending c hc
    · cases h_none
    · exact .inr h_row

theorem Effect.of_goes_resume {r : State × Task} {i : Nat} (h_at : s.taskAt i ≠ .done)
    (h_old : (s.taskAt i).plain = true) (h : Goes s (s.taskAt i).pending r) :
    Effect s e (resume i r) := by
  refine .aside i r.2 h_old h.plain (taskAt_resume s h_at h.tasks) ?_ h.pending
  have h_keeps := h.keeps
  exact ⟨h_keeps.copies, h_keeps.nextCopy, h_keeps.objects, h_keeps.backupIds, h_keeps.kept,
    h_keeps.completed⟩

/-- Every candidate of a plan is a row. -/
theorem mem_plan {serverId : ServerId} {location : Option StorageId} {limits : RetentionLimits}
    {now : Int} {c : StoredCopy} (h : c ∈ s.plan serverId location limits now) :
    c ∈ s.copies := by
  obtain ⟨p, hp, rfl⟩ := List.mem_map.mp h
  have h_candidate := mem_of_mem_planRetention _ hp
  obtain ⟨c, hc, h_eq⟩ := List.mem_filterMap.mp h_candidate
  split at h_eq
  · obtain ⟨b, -, rfl⟩ := Option.map_eq_some_iff.mp h_eq
    exact hc
  · cases h_eq

/-- The next removal of a loop. -/
theorem goes_removing {caller : RemoveCaller} {copy : StoredCopy} {pending : List StoredCopy}
    (h_copy : copy ∈ pending ∨ copy ∈ s.copies)
    (h_rest : ∀ c ∈ caller.rest, c ∈ pending ∨ c ∈ s.copies) :
    Goes s pending (s, .removing caller copy false) := by
  refine .of_task rfl ?_
  intro c hc
  obtain rfl | hc := List.mem_cons.mp hc
  · exact h_copy
  · exact h_rest c hc

theorem goes_applied (serverId : ServerId) (pending : List StoredCopy) :
    Goes s pending (s.applied serverId) :=
  ⟨.of_same rfl rfl rfl rfl, rfl, rfl, by simp [applied, Task.pending]⟩

theorem goes_prune (run : PruneRun) (now : Int) {rest pending : List StoredCopy}
    (h_rest : ∀ c ∈ rest, c ∈ pending ∨ c ∈ s.copies) :
    Goes s pending (s.prune run now rest) := by
  cases rest with
  | cons copy rest =>
    exact goes_removing (h_rest copy List.mem_cons_self)
      fun c hc => h_rest c (List.mem_cons_of_mem _ hc)
  | nil =>
    simp only [prune]
    split
    · split
      · rename_i copy rest h_plan
        have h_mem : ∀ c ∈ copy :: rest, c ∈ pending ∨ c ∈ s.copies :=
          fun c hc => .inr (mem_plan (h_plan ▸ hc))
        exact goes_removing (h_mem copy List.mem_cons_self)
          fun c hc => h_mem c (List.mem_cons_of_mem _ hc)
      · exact goes_applied _ _
    · exact goes_applied _ _

/-- The set of servers retention runs for is no part of the tables. -/
theorem Goes.of_running {running : List ServerId} {pending : List StoredCopy}
    {r : State × Task} (h : Goes { s with running } pending r) : Goes s pending r :=
  ⟨⟨h.keeps.copies, h.keeps.nextCopy, h.keeps.objects, h.keeps.backupIds, h.keeps.kept,
    h.keeps.completed⟩, h.tasks, h.plain, h.pending⟩

theorem goes_apply (serverId : ServerId) (policy : BackupPolicy) (now : Int)
    (pending : List StoredCopy) : Goes s pending (s.apply serverId policy now) := by
  simp only [State.apply]
  split
  · exact .of_task rfl (by simp [Task.pending])
  · exact .of_running (goes_prune _ now fun c hc => .inr (mem_plan hc))

theorem goes_dropLocal (record : BackupRecord) (pending : List StoredCopy) :
    Goes s pending (s.dropLocal record) := by
  simp only [dropLocal]
  split
  · rename_i copy h_at
    exact goes_removing (.inr (findAt_mem h_at).1) (by simp [RemoveCaller.rest])
  · exact .of_task rfl (by simp [Task.pending])

theorem plain_uploadThrew (caller : UploadCaller) (backup : BackupRecord) :
    (uploadThrew caller backup).plain = true ∧ (uploadThrew caller backup).pending = [] := by
  cases caller <;> exact ⟨rfl, rfl⟩

theorem goes_removeThrew (caller : RemoveCaller) :
    Goes s caller.rest (s, removeThrew caller) := by
  cases caller with
  | prune run rest => exact .of_task rfl fun c hc => .inl hc
  | request => exact .of_task rfl (by simp [removeThrew, Task.pending])
  | dropLocal record => exact .of_task rfl (by simp [removeThrew, Task.pending])
  | removeAll id rest => exact .of_task rfl (by simp [removeThrew, Task.pending])

theorem goes_packFailed (record : BackupRecord) (pending : List StoredCopy) :
    Goes s pending (s.packFailed record) := by
  refine ⟨?_, rfl, rfl, by simp [packFailed, Task.pending]⟩
  exact .of_modify (f := fun b => { b with status := .failed }) (fun _ => rfl)
    (fun _ h => by cases h) rfl rfl rfl rfl

/-! ### Uploads -/

/-- The row at a location is the only one. -/
theorem findAt_of_mem (h_wf : WellFormed s) {c : StoredCopy} (hc : c ∈ s.copies) :
    s.findAt c.backupId c.storageId = some c := by
  cases h_at : s.findAt c.backupId c.storageId with
  | none => exact absurd ⟨rfl, rfl⟩ (findAt_eq_none h_at c hc)
  | some c' =>
    obtain ⟨h_mem, h_b, h_st⟩ := findAt_mem h_at
    rw [h_wf.locations.eq_of_col h_mem hc (by simp [h_b, h_st])]

/-- The rows without the one at a location. -/
def State.vacate (s : State) (id : Uuid) (storageId : Option StorageId) : State :=
  { s with copies := s.copies.filter fun c => ¬ (c.backupId = id ∧ c.storageId = storageId) }

/-- Deleting the row that `findAt` finds vacates the location. -/
theorem delete_findAt (h_wf : WellFormed s) (id : Uuid) (storageId : Option StorageId) :
    ((s.findAt id storageId).elim s fun copy => s.deleteCopy copy.id) =
      s.vacate id storageId := by
  cases h_at : s.findAt id storageId with
  | none =>
    have h_filter : s.copies.filter (fun c => ¬ (c.backupId = id ∧ c.storageId = storageId)) =
        s.copies := by
      apply List.filter_eq_self.mpr
      intro c hc
      exact decide_eq_true (findAt_eq_none h_at c hc)
    rw [vacate, h_filter]
    rfl
  | some copy =>
    obtain ⟨h_mem, h_b, h_st⟩ := findAt_mem h_at
    show s.deleteCopy copy.id = s.vacate id storageId
    rw [deleteCopy, vacate]
    congr 1
    apply List.filter_congr
    intro c hc
    have h_iff : c.id = copy.id ↔ c.backupId = id ∧ c.storageId = storageId := by
      constructor
      · intro h_eq
        have h_same := h_wf.copyIds.eq_of_col hc h_mem h_eq
        exact h_same ▸ ⟨h_b, h_st⟩
      · rintro ⟨h_cb, h_cst⟩
        have h_same := h_wf.locations.eq_of_col hc h_mem (by simp [h_b, h_st, h_cb, h_cst])
        exact congrArg StoredCopy.id h_same
    simp [h_iff]

/-- What an `uploadCopy` that got past its checks did. -/
structure Started (s : State) (record : BackupRecord) (storageId : StorageId) (s₁ : State)
    (up : Upload) : Prop where
  backup : up.backup = record
  storage : up.storageId = storageId
  copy : up.copy = s.nextCopy
  key : ∃ folder, up.objectKey = keyFor folder (archiveKey record)
  fromDisk : ∃ c ∈ s.copies, c.backupId = record.id ∧ c.storageId = none ∧ c.status = .ready
  replaced : ∀ c ∈ s.copies, c.backupId = record.id → c.storageId = some storageId →
    c.status ≠ .ready
  copies : s₁.copies = (s.vacate record.id (some storageId)).copies ++ [up.row]
  nextCopy : s₁.nextCopy = s.nextCopy + 1
  objects : s₁.objects = s.objects
  backups : s₁.backups = s.backups
  tasks : s₁.tasks = s.tasks

/-- How `uploadCopy` ends before its first await: it throws and nothing changed, it finds a
    ready copy, or it replaces the row of the location by a new one. -/
theorem uploadCopy_cases (h_wf : WellFormed s) (record : BackupRecord) (storageId : StorageId)
    (folder : Option String) :
    s.uploadCopy record storageId folder = .throws s ∨
    s.uploadCopy record storageId folder = .existing ∨
    ∃ s₁ up, s.uploadCopy record storageId folder = .started s₁ up ∧
      Started s record storageId s₁ up := by
  cases folder with
  | none => exact .inl rfl
  | some folder =>
    cases h_local : s.localArchive record.id with
    | none => exact .inl (by simp [uploadCopy, h_local])
    | some localCopy =>
      obtain ⟨h_row, h_id, h_disk, h_ready⟩ := localArchive_mem h_local
      by_cases h_existing : (s.findAt record.id (some storageId)).any (·.status = .ready) = true
      · exact .inr (.inl (by simp [uploadCopy, h_local, h_existing]))
      have h_vacated := delete_findAt h_wf record.id (some storageId)
      -- the backup has a local row, so it is there, and its location is vacant
      have h_owner : ∃ b ∈ s.backups, b.id = record.id := by
        obtain ⟨b, hb, h_b⟩ := h_wf.owned localCopy h_row
        exact ⟨b, hb, h_b.trans h_id⟩
      have h_free : ∀ c ∈ (s.vacate record.id (some storageId)).copies,
          ¬ (c.backupId = record.id ∧ c.storageId = some storageId) := by
        intro c hc
        exact of_decide_eq_true (List.mem_filter.mp hc).2
      obtain ⟨created, h_created⟩ := Option.isSome_iff_exists.mp
        (createCopy_isSome (s := s.vacate record.id (some storageId))
          (keyFor folder (archiveKey record)) .uploading h_owner h_free)
      obtain ⟨-, -, h_eq⟩ := createCopy_eq_some h_created
      have h_started : s.uploadCopy record storageId (some folder) =
          .started (created.lease localCopy.id)
            ⟨record, storageId, localCopy.id, s.nextCopy, keyFor folder (archiveKey record)⟩ := by
        simp only [uploadCopy, h_local, h_existing, h_vacated, h_created]
        rfl
      refine .inr (.inr ⟨_, _, h_started, rfl, rfl, rfl, ⟨folder, rfl⟩,
        ⟨localCopy, h_row, h_id, h_disk, h_ready⟩, ?_, ?_, ?_, ?_, ?_, ?_⟩)
      · intro c hc h_b h_st h_status
        apply h_existing
        have h_found := findAt_of_mem h_wf hc
        rw [h_b, h_st] at h_found
        simp [h_found, h_status]
      all_goals
        rw [h_eq]
        rfl

/-- An upload that is placed at `i`. -/
theorem Effect.of_upload (h_wf : WellFormed s) {caller : UploadCaller} {record : BackupRecord}
    {storageId : StorageId} {folder : Option String} {i : Nat}
    (h_old : (s.taskAt i).plain = true)
    (h_event : s.startsUpload e = s.startsCopy record storageId folder)
    (tasks : (s.upload caller record storageId folder).1.tasks = s.tasks →
      s'.taskAt = Function.update s.taskAt i (s.upload caller record storageId folder).2)
    (copies : s'.copies = (s.upload caller record storageId folder).1.copies)
    (nextCopy : s'.nextCopy = (s.upload caller record storageId folder).1.nextCopy)
    (objects : s'.objects = (s.upload caller record storageId folder).1.objects)
    (backups : s'.backups = (s.upload caller record storageId folder).1.backups) :
    Effect s e s' := by
  obtain h | h | ⟨s₁, up, h, h_started⟩ := uploadCopy_cases h_wf record storageId folder
  · have h_up : s.upload caller record storageId folder = (s, uploadThrew caller record) := by
      simp [upload, h]
    rw [h_up] at tasks copies nextCopy objects backups
    obtain ⟨h_plain, h_pending⟩ := plain_uploadThrew caller record
    exact .aside i _ h_old h_plain (tasks rfl) (.of_same backups copies nextCopy objects)
      (by simp [h_pending])
  · have h_up : s.upload caller record storageId folder = (s, .uploaded caller record) := by
      simp [upload, h]
    rw [h_up] at tasks copies nextCopy objects backups
    exact .aside i _ h_old rfl (tasks rfl) (.of_same backups copies nextCopy objects)
      (by simp [Task.pending])
  · have h_up : s.upload caller record storageId folder =
        (s₁, .uploading caller up .sending) := by
      simp [upload, h]
    rw [h_up] at tasks copies nextCopy objects backups
    obtain ⟨h_backup, rfl, h_copy, ⟨f, h_key⟩, h_local, h_replaced, h_copies, h_next, h_objects,
      h_backups, h_tasks⟩ := h_started
    subst h_backup
    refine .starts i caller up f h_old (tasks h_tasks) ?_ h_copy h_key h_local h_replaced
      (copies.trans h_copies) (nextCopy.trans h_next) (objects.trans h_objects)
      (backups.trans h_backups)
    rw [h_event, startsCopy, h]

/-! ### Removals -/

/-- The loop of `removeAll` goes on, or takes the backup with it. -/
theorem Effect.of_removeAll {i : Nat} {id : Uuid} {rest : List StoredCopy}
    (h_old : (s.taskAt i).plain = true)
    (h_rest : ∀ c ∈ rest, c ∈ (s.taskAt i).pending ∨ c ∈ s.copies)
    (tasks : (s.removeAll id rest).1.tasks = s.tasks →
      s'.taskAt = Function.update s.taskAt i (s.removeAll id rest).2)
    (copies : s'.copies = (s.removeAll id rest).1.copies)
    (nextCopy : s'.nextCopy = (s.removeAll id rest).1.nextCopy)
    (objects : s'.objects = (s.removeAll id rest).1.objects)
    (backups : s'.backups = (s.removeAll id rest).1.backups) : Effect s e s' := by
  cases rest with
  | nil => exact .backupGone i id h_old (tasks rfl) copies backups nextCopy objects
  | cons copy rest =>
    refine .aside i _ h_old rfl (tasks rfl) (.of_same backups copies nextCopy objects) ?_
    intro c hc
    exact h_rest c hc

/-- The rows after `remove()`: its own is gone, and a backup left without rows too. -/
theorem removeRow_spec (s : State) (copy : StoredCopy) :
    (s.removeRow copy).copies = s.copies.filter (·.id ≠ copy.id) ∧
    (s.removeRow copy).nextCopy = s.nextCopy ∧ (s.removeRow copy).objects = s.objects ∧
    (s.removeRow copy).tasks = s.tasks ∧
    (∀ b, b ∈ (s.removeRow copy).backups ↔ b ∈ s.backups ∧
      (b.id = copy.backupId → ∃ c ∈ (s.removeRow copy).copies, c.backupId = b.id)) ∧
    (UniqueCol (·.id) s.backups → UniqueCol (·.id) (s.removeRow copy).backups) := by
  by_cases h_last : ((s.deleteCopy copy.id).copiesOf copy.backupId).isEmpty = true
  · have h_eq : s.removeRow copy = (s.deleteCopy copy.id).deleteBackup copy.backupId := by
      simp only [removeRow, h_last, if_true]
    -- no row of the backup is left, so the cascade takes none
    have h_none : ∀ c ∈ (s.deleteCopy copy.id).copies, c.backupId ≠ copy.backupId := by
      intro c hc h_b
      have h_of := mem_copiesOf.mpr ⟨hc, h_b⟩
      rw [List.isEmpty_iff.mp h_last] at h_of
      cases h_of
    have h_copies : (s.removeRow copy).copies = s.copies.filter (·.id ≠ copy.id) := by
      rw [h_eq]
      apply List.filter_eq_self.mpr
      intro c hc
      exact decide_eq_true (h_none c hc)
    refine ⟨h_copies, by rw [h_eq]; rfl, by rw [h_eq]; rfl, by rw [h_eq]; rfl, ?_, ?_⟩
    · intro b
      rw [h_copies, h_eq]
      show b ∈ s.backups.filter _ ↔ _
      rw [List.mem_filter]
      constructor
      · rintro ⟨hb, h_ne⟩
        exact ⟨hb, fun h_id => absurd h_id (of_decide_eq_true h_ne)⟩
      · rintro ⟨hb, h_more⟩
        refine ⟨hb, decide_eq_true fun h_id => ?_⟩
        obtain ⟨c, hc, h_c⟩ := h_more h_id
        exact h_none c hc (h_c.trans h_id)
    · intro h_ids
      rw [h_eq]
      exact h_ids.filter _
  · have h_eq : s.removeRow copy = s.deleteCopy copy.id := by
      simp only [removeRow, h_last]
      rfl
    have h_some : ∃ c ∈ (s.deleteCopy copy.id).copies, c.backupId = copy.backupId := by
      obtain ⟨c, hc⟩ := List.exists_mem_of_ne_nil _ (mt List.isEmpty_iff.mpr h_last)
      exact ⟨c, mem_copiesOf.mp hc⟩
    rw [h_eq]
    refine ⟨rfl, rfl, rfl, rfl, ?_, fun h_ids => h_ids⟩
    intro b
    constructor
    · intro hb
      refine ⟨hb, fun h_id => ?_⟩
      rw [h_id]
      exact h_some
    · exact fun h => h.1

/-- The objects after an archive went. -/
theorem mem_dropArchive (s : State) (copy : StoredCopy) (o : StorageId × String) :
    o ∈ (s.dropArchive copy).objects ↔
      o ∈ s.objects ∧ ¬ (copy.storageId = some o.1 ∧ copy.objectKey = o.2) := by
  cases h : copy.storageId with
  | none => simp [dropArchive, h]
  | some storageId =>
    have h_drop : (s.dropArchive copy).objects =
        s.objects.filter (· ≠ (storageId, copy.objectKey)) := by
      simp only [dropArchive, h]
    have h_iff : o = (storageId, copy.objectKey) ↔
        some storageId = some o.1 ∧ copy.objectKey = o.2 := by
      rw [Prod.ext_iff, Option.some.injEq]
      exact and_congr eq_comm eq_comm
    rw [h_drop, List.mem_filter, decide_eq_true_iff, Ne, h_iff]

theorem dropArchive_rest (s : State) (copy : StoredCopy) :
    (s.dropArchive copy).copies = s.copies ∧ (s.dropArchive copy).nextCopy = s.nextCopy ∧
      (s.dropArchive copy).backups = s.backups ∧ (s.dropArchive copy).tasks = s.tasks := by
  simp only [dropArchive]
  split <;> exact ⟨rfl, rfl, rfl, rfl⟩

/-! ### All steps -/

/-- **Inversion of `step`** over well formed tables. -/
theorem step_effect (h_wf : WellFormed s) (h : step s e = some s') : Effect s e s' := by
  cases e with
  | create id serverId format createdAt =>
    simp only [step] at h
    split at h
    · cases h
    · rename_i h_new
      cases h
      refine .of_goes_push ⟨⟨rfl, rfl, rfl, ?_, ?_, ?_⟩, rfl, rfl, by simp [Task.pending]⟩
      · intro h_ids
        apply h_ids.append
        intro b hb h_id
        apply h_new
        rw [findBackup, List.find?_isSome]
        exact ⟨b, hb, by simpa using h_id⟩
      · exact fun b hb => ⟨b, List.mem_append_left _ hb, rfl⟩
      · intro b hb h_status
        obtain hb | hb := List.mem_append.mp hb
        · exact ⟨b, hb, rfl, h_status⟩
        · rw [List.mem_singleton.mp hb] at h_status
          cases h_status
  | packSucceeds i =>
    simp only [step] at h
    split at h
    · rename_i record h_at
      cases h
      have h_ne : s.taskAt i ≠ .done := by simp [h_at]
      simp only [packSucceeded]
      split
      · rename_i s₁ h_created
        obtain ⟨h_owner, h_free, rfl⟩ := createCopy_eq_some h_created
        exact .archived i record h_at (taskAt_resume s h_ne rfl) h_free h_owner rfl rfl rfl rfl
      · exact .of_goes_resume h_ne (by simp [h_at, Task.plain]) (goes_packFailed record _)
    · cases h
  | packFails i =>
    simp only [step] at h
    split at h
    · rename_i record h_at
      cases h
      exact .of_goes_resume (by simp [h_at]) (by simp [h_at, Task.plain])
        (goes_packFailed record _)
    · cases h
  | afterCreate i policy folder =>
    simp only [step] at h
    split at h
    · rename_i record h_at
      cases h
      have h_ne : s.taskAt i ≠ .done := by simp [h_at]
      have h_plain : (s.taskAt i).plain = true := by simp [h_at, Task.plain]
      simp only [afterCreate]
      split
      · rename_i storageId h_storage h_auto
        refine .of_upload h_wf h_plain ?_ (fun h_tasks => taskAt_resume s h_ne h_tasks)
          rfl rfl rfl rfl
        simp only [startsUpload, h_at, h_storage]
      · exact .of_goes_resume h_ne h_plain (.of_task rfl (by simp [Task.pending]))
    · cases h
  | upload id storageId folder =>
    simp only [step] at h
    split at h
    · rename_i record h_found
      split at h
      · cases h
        refine .of_upload h_wf (i := s.tasks.length) (by simp [Task.plain]) ?_
          (fun h_tasks => taskAt_push s h_tasks) rfl rfl rfl rfl
        simp only [startsUpload, h_found, Option.bind_some]
      · cases h
    · cases h
  | objectPut i =>
    simp only [step] at h
    split at h
    · rename_i caller up h_at
      cases h
      exact .put i caller up h_at (taskAt_resume s (by simp [h_at]) rfl) rfl rfl rfl rfl
    · cases h
  | uploadResolves i =>
    simp only [step] at h
    split at h
    · rename_i caller up h_at
      cases h
      have h_ne : s.taskAt i ≠ .done := by simp [h_at]
      simp only [uploadResolved]
      split
      · rename_i h_gone
        exact .cleans i caller up h_at (findCopy_isNone h_gone) (taskAt_resume s h_ne rfl)
          (.of_same rfl rfl rfl rfl)
      · exact .ready i caller up h_at (taskAt_resume s h_ne rfl) rfl rfl rfl rfl
    · cases h
  | uploadFails i =>
    simp only [step] at h
    split at h
    · rename_i caller up phase h_at
      cases h
      exact .fails i caller up phase rfl h_at (taskAt_resume s (by simp [h_at]) rfl)
        rfl rfl rfl rfl
    · cases h
  | afterUpload i =>
    simp only [step] at h
    split at h
    · rename_i record h_at
      cases h
      exact .of_goes_resume (by simp [h_at]) (by simp [h_at, Task.plain])
        (goes_dropLocal record _)
    · rename_i caller record h_at
      cases h
      exact .of_goes_resume (by simp [h_at]) (by simp [h_at, Task.plain])
        (.of_task rfl (by simp [Task.pending]))
    · cases h
  | delete id =>
    simp only [step] at h
    split at h
    · split at h
      · cases h
      · cases h
        exact .of_removeAll (i := s.tasks.length) (by simp [Task.plain])
          (fun c hc => .inr (mem_copiesOf.mp hc).1) (fun h_tasks => taskAt_push s h_tasks)
          rfl rfl rfl rfl
    · cases h
  | remove copy =>
    simp only [step] at h
    split at h
    · rename_i copy h_found
      cases h
      exact .of_goes_push (goes_removing (.inr (findCopy_mem h_found).1)
        (by simp [RemoveCaller.rest]))
    · cases h
  | archiveGone i =>
    simp only [step] at h
    split at h
    · rename_i caller copy h_at
      cases h
      obtain ⟨h_copies, h_next, h_backups, h_tasks⟩ := dropArchive_rest s copy
      exact .archiveGone i caller copy h_at (taskAt_resume s (by simp [h_at]) h_tasks)
        (mem_dropArchive s copy) h_copies h_next h_backups
    · rename_i caller up h_at
      cases h
      refine .cleaned i caller up h_at (taskAt_resume s (by simp [h_at]) rfl) ?_ rfl rfl rfl
      intro o
      show o ∈ s.objects.filter _ ↔ _
      rw [List.mem_filter, decide_eq_true_iff]
    · cases h
  | removeResolves i =>
    simp only [step] at h
    split at h
    · rename_i caller copy h_at
      cases h
      obtain ⟨h_copies, h_next, h_objects, h_tasks, h_backups, h_ids⟩ := removeRow_spec s copy
      exact .rowGone i caller copy rfl h_at (taskAt_resume s (by simp [h_at]) h_tasks)
        h_copies h_next h_objects h_backups h_ids
    · cases h
  | removeRejects i =>
    simp only [step] at h
    split at h
    · rename_i caller copy h_at
      cases h
      have h_goes := goes_removeThrew (s := s) caller
      refine .of_goes_resume (by simp [h_at]) (by simp [h_at, Task.plain])
        ⟨h_goes.keeps, h_goes.tasks, h_goes.plain, fun c hc => ?_⟩
      obtain h_rest | h_row := h_goes.pending c hc
      · exact .inl (by simp [h_at, Task.pending, h_rest])
      · exact .inr h_row
    · cases h
  | afterRemove i now =>
    simp only [step] at h
    split at h
    · rename_i h_at
      cases h
      exact .of_goes_resume (by simp [h_at]) (by simp [h_at, Task.plain])
        (.of_task rfl (by simp [Task.pending]))
    · rename_i record h_at
      cases h
      exact .of_goes_resume (by simp [h_at]) (by simp [h_at, Task.plain])
        (.of_task rfl (by simp [Task.pending]))
    · rename_i id rest h_at
      cases h
      exact .of_removeAll (by simp [h_at, Task.plain])
        (fun c hc => .inl (by simpa [h_at, Task.pending, RemoveCaller.rest] using hc))
        (fun h_tasks => taskAt_resume s (by simp [h_at]) h_tasks) rfl rfl rfl rfl
    · rename_i run rest h_at
      cases h
      exact .of_goes_resume (by simp [h_at]) (by simp [h_at, Task.plain])
        (goes_prune run now fun c hc =>
          .inl (by simpa [h_at, Task.pending, RemoveCaller.rest] using hc))
    · cases h
  | applyRetention serverId policy now =>
    simp only [step, Option.some.injEq] at h
    subst h
    exact .of_goes_push (goes_apply serverId policy now [])
  | afterWork i policy now =>
    simp only [step] at h
    split at h
    · rename_i serverId h_at
      cases h
      exact .of_goes_resume (by simp [h_at]) (by simp [h_at, Task.plain])
        (goes_apply serverId policy now _)
    · cases h
  | setPinned id pinned =>
    simp only [step] at h
    split at h
    · cases h
    · cases h
      have h_keeps : Keeps s { s with
          backups := modifyRow (·.id) id (fun b : BackupRecord => { b with pinned }) s.backups } :=
        .of_modify (f := fun b => { b with pinned }) (fun _ => rfl) (fun _ h => h) rfl rfl rfl rfl
      refine .aside s.tasks.length .done (by simp [Task.plain]) rfl ?_ h_keeps
        (by simp [Task.pending])
      rw [← taskAt_length s, Function.update_eq_self]
      rfl
  | restore id =>
    simp only [step] at h
    split at h
    · split at h
      · obtain ⟨copy, -, rfl⟩ := Option.map_eq_some_iff.mp h
        exact .of_goes_push ⟨.of_same rfl rfl rfl rfl, rfl, rfl, by simp [Task.pending]⟩
      · cases h
    · cases h
  | restoreEnds i =>
    simp only [step] at h
    split at h
    · rename_i copy h_at
      cases h
      exact .of_goes_resume (by simp [h_at]) (by simp [h_at, Task.plain])
        ⟨.of_same rfl rfl rfl rfl, rfl, rfl, by simp [Task.pending]⟩
    · cases h

end Inversion

/-! ## The tables stay well formed -/

namespace WellFormed

variable {s s' : State}

/-- The same tables. -/
theorem of_tables (h : WellFormed s) (copies : s'.copies = s.copies)
    (nextCopy : s'.nextCopy = s.nextCopy) (backups : s'.backups = s.backups) :
    WellFormed s' where
  backupIds := backups ▸ h.backupIds
  copyIds := copies ▸ h.copyIds
  locations := copies ▸ h.locations
  fresh := by rw [copies, nextCopy]; exact h.fresh
  owned := by rw [copies, backups]; exact h.owned
  keyed := by rw [copies]; exact h.keyed

/-- Rows that stay, of backups that stay. -/
theorem of_keeps (h : WellFormed s) (keeps : Keeps s s') : WellFormed s' where
  backupIds := keeps.backupIds h.backupIds
  copyIds := keeps.copies ▸ h.copyIds
  locations := keeps.copies ▸ h.locations
  fresh c hc := keeps.nextCopy ▸ h.fresh c (keeps.copies ▸ hc)
  owned c hc := by
    obtain ⟨b, hb, h_b⟩ := h.owned c (keeps.copies ▸ hc)
    obtain ⟨b', hb', h_b'⟩ := keeps.kept b hb
    exact ⟨b', hb', h_b'.trans h_b⟩
  keyed c hc := h.keyed c (keeps.copies ▸ hc)

/-- A new row at a free location. -/
theorem append (h : WellFormed s) {c : StoredCopy} (h_id : c.id = s.nextCopy)
    (h_free : ∀ r ∈ s.copies, ¬ (r.backupId = c.backupId ∧ r.storageId = c.storageId))
    (h_owner : ∃ b ∈ s.backups, b.id = c.backupId) (h_keyed : Keyed c)
    (copies : s'.copies = s.copies ++ [c]) (nextCopy : s'.nextCopy = s.nextCopy + 1)
    (backups : s'.backups = s.backups) : WellFormed s' where
  backupIds := backups ▸ h.backupIds
  copyIds := by
    rw [copies]
    apply h.copyIds.append
    intro r hr
    have h_lt := h.fresh r hr
    omega
  locations := by
    rw [copies]
    apply h.locations.append
    intro r hr h_eq
    exact h_free r hr (Prod.mk.inj h_eq)
  fresh r hr := by
    rw [copies] at hr
    rw [nextCopy]
    obtain hr | hr := List.mem_append.mp hr
    · have h_lt := h.fresh r hr
      omega
    · rw [List.mem_singleton.mp hr]
      omega
  owned r hr := by
    rw [copies] at hr
    rw [backups]
    obtain hr | hr := List.mem_append.mp hr
    · exact h.owned r hr
    · rwa [List.mem_singleton.mp hr]
  keyed r hr := by
    rw [copies] at hr
    obtain hr | hr := List.mem_append.mp hr
    · exact h.keyed r hr
    · rwa [List.mem_singleton.mp hr]

/-- Rows go, and no backup goes before its rows. -/
theorem filter (h : WellFormed s) {p : StoredCopy → Bool} (copies : s'.copies = s.copies.filter p)
    (nextCopy : s'.nextCopy = s.nextCopy) (backupIds : UniqueCol (·.id) s'.backups)
    (owned : ∀ c ∈ s'.copies, ∀ b ∈ s.backups, b.id = c.backupId → b ∈ s'.backups) :
    WellFormed s' where
  backupIds := backupIds
  copyIds := copies ▸ h.copyIds.filter p
  locations := copies ▸ h.locations.filter p
  fresh c hc := nextCopy ▸ h.fresh c (List.mem_filter.mp (copies ▸ hc)).1
  owned c hc := by
    obtain ⟨b, hb, h_b⟩ := h.owned c (List.mem_filter.mp (copies ▸ hc)).1
    exact ⟨b, owned c hc b hb h_b, h_b⟩
  keyed c hc := h.keyed c (List.mem_filter.mp (copies ▸ hc)).1

/-- A row changes its status. -/
theorem setStatus (h : WellFormed s) {id : Nat} {status : BackupCopyStatus}
    (copies : s'.copies = modifyRow (·.id) id (fun c => { c with status }) s.copies)
    (nextCopy : s'.nextCopy = s.nextCopy) (backups : s'.backups = s.backups) :
    WellFormed s' := by
  -- a row differs from the one it was in its status only
  have h_row : ∀ c ∈ s'.copies, ∃ r ∈ s.copies, r.id = c.id ∧ r.backupId = c.backupId ∧
      r.storageId = c.storageId ∧ r.objectKey = c.objectKey := by
    intro c hc
    rw [copies, mem_modifyRow] at hc
    obtain ⟨r, hr, -, rfl⟩ | ⟨hc, -⟩ := hc
    · exact ⟨r, hr, rfl, rfl, rfl, rfl⟩
    · exact ⟨c, hc, rfl, rfl, rfl, rfl⟩
  refine ⟨backups ▸ h.backupIds, ?_, ?_, ?_, ?_, ?_⟩
  · rw [copies]
    exact h.copyIds.modifyRow_same fun _ _ => rfl
  · rw [copies]
    exact h.locations.modifyRow_same fun _ _ => rfl
  · intro c hc
    obtain ⟨r, hr, h_id, -⟩ := h_row c hc
    rw [nextCopy, ← h_id]
    exact h.fresh r hr
  · intro c hc
    obtain ⟨r, hr, -, h_b, -⟩ := h_row c hc
    rw [backups, ← h_b]
    exact h.owned r hr
  · intro c hc
    obtain ⟨r, hr, -, h_b, h_st, h_key⟩ := h_row c hc
    have h_keyed := h.keyed r hr
    rw [Keyed] at h_keyed ⊢
    rwa [← h_b, ← h_st, ← h_key]

/-- One step. -/
theorem step {e : Event} (h : WellFormed s) (h_step : Copies.step s e = some s') :
    WellFormed s' := by
  cases step_effect h h_step with
  | aside i t _ _ _ keeps _ => exact h.of_keeps keeps
  | archived i record _ _ h_free h_owner copies nextCopy _ backups =>
    have h_row : WellFormed { s' with backups := s.backups } :=
      h.append rfl (findAt_eq_none h_free) h_owner (fun h_some => by cases h_some)
        copies nextCopy rfl
    refine ⟨?_, h_row.copyIds, h_row.locations, h_row.fresh, ?_, h_row.keyed⟩
    · rw [backups]
      exact h.backupIds.modifyRow_same fun _ _ => rfl
    · intro c hc
      obtain ⟨b, hb, h_b⟩ := h_row.owned c hc
      by_cases h_record : b.id = record.id
      · exact ⟨{ b with status := .completed }, by
          rw [backups, mem_modifyRow]
          exact .inl ⟨b, hb, h_record, rfl⟩, h_b⟩
      · exact ⟨b, by
          rw [backups, mem_modifyRow]
          exact .inr ⟨hb, h_record⟩, h_b⟩
  | starts i caller up folder _ _ _ h_copy h_key h_local _ copies nextCopy _ backups =>
    have h_vacant : WellFormed (s.vacate up.backup.id (some up.storageId)) :=
      h.filter rfl rfl h.backupIds fun _ _ b hb _ => hb
    refine h_vacant.append h_copy ?_ ?_ ?_ copies nextCopy backups
    · intro r hr
      exact of_decide_eq_true (List.mem_filter.mp hr).2
    · obtain ⟨c, hc, h_b, -⟩ := h_local
      obtain ⟨b, hb, h_owner⟩ := h.owned c hc
      exact ⟨b, hb, h_owner.trans h_b⟩
    · exact fun _ => ⟨folder, up.backup, rfl, h_key⟩
  | put i caller up _ _ _ copies nextCopy backups =>
    exact h.of_tables copies nextCopy backups
  | ready i caller up _ _ copies nextCopy _ backups => exact h.setStatus copies nextCopy backups
  | cleans i caller up _ _ _ keeps => exact h.of_keeps keeps
  | cleaned i caller up _ _ _ copies nextCopy backups =>
    exact h.of_tables copies nextCopy backups
  | fails i caller up phase _ _ _ copies nextCopy _ backups =>
    exact h.setStatus copies nextCopy backups
  | archiveGone i caller copy _ _ _ copies nextCopy backups =>
    exact h.of_tables copies nextCopy backups
  | rowGone i caller copy _ _ _ copies nextCopy _ backups backupIds =>
    refine h.filter copies nextCopy (backupIds h.backupIds) ?_
    intro c hc b hb h_b
    exact (backups b).mpr ⟨hb, fun _ => ⟨c, hc, h_b.symm⟩⟩
  | backupGone i id _ _ copies backups nextCopy _ =>
    refine h.filter copies nextCopy (by rw [backups]; exact h.backupIds.filter _) ?_
    intro c hc b hb h_b
    rw [copies] at hc
    have h_ne := of_decide_eq_true (List.mem_filter.mp hc).2
    rw [backups, List.mem_filter]
    exact ⟨hb, decide_eq_true (h_b ▸ h_ne)⟩

end WellFormed

/-! ## The panel as a transition system -/

/-- Every ready row of a storage has its object there. -/
def Backed (s : State) : Prop :=
  ∀ c ∈ s.copies, c.status = .ready → ∀ storageId, c.storageId = some storageId →
    (storageId, c.objectKey) ∈ s.objects

instance (s : State) : Decidable (Backed s) :=
  decidable_of_iff (∀ c ∈ s.copies, c.status = .ready → ∀ storageId ∈ c.storageId,
    (storageId, c.objectKey) ∈ s.objects) Iff.rfl

/-- Every completed backup has a ready copy. -/
def Recoverable (s : State) : Prop :=
  ∀ b ∈ s.backups, b.status = .completed → ∃ c ∈ s.copies, c.backupId = b.id ∧ c.status = .ready

instance (s : State) : Decidable (Recoverable s) :=
  inferInstanceAs (Decidable (∀ b ∈ s.backups, b.status = .completed →
    ∃ c ∈ s.copies, c.backupId = b.id ∧ c.status = .ready))

/-- A panel that has booted over sound tables: nothing is in flight, and recovery left no
    row as uploading. -/
structure Booted (s : State) : Prop where
  wf : WellFormed s
  idle : s.tasks = []
  settled : ∀ c ∈ s.copies, c.status ≠ .uploading
  backed : Backed s
  recoverable : Recoverable s

def machine : Transition.Machine State Event where
  init := Booted
  step := step

/-- A new panel. -/
theorem booted_empty : Booted {} where
  wf := ⟨uniqueCol_nil _, uniqueCol_nil _, uniqueCol_nil _, by simp, by simp, by simp⟩
  idle := rfl
  settled := by simp
  backed := by simp [Backed]
  recoverable := by simp [Recoverable]

/-- A backup of the runs below, and the policies they use. -/
def nightly : Uuid := ⟨"nightly", by simp⟩

def keepAll : BackupPolicy where
  disk := ⟨none, none⟩
  storageId := none
  autoUpload := false
  deleteLocalAfterUpload := false
  remote := ⟨none, none⟩

def autoUpload : BackupPolicy := { keepAll with storageId := some "s3", autoUpload := true }

end Kubek.Backups.Copies
