/-
  Kubek.Backups.ReadyBacked

  A ready row of a remote storage and the object it names.

  `remove()` takes the object first and the row after, so between the two a ready row
  has no object; the row then goes. Two uploads of one backup to one storage take each
  other's row and write one key, and the one that finds its row gone removes the object
  the other has just announced: that row stays (`ready_rows_without_object`, both). While no upload gets past its checks as long as other
  work may still remove the object of its location, every ready row that is not being
  removed has its object (`readyBacked_of_reachableUnder`).
-/

import Kubek.Backups.CopySteps

namespace Kubek.Backups.Copies

open State KeyedRows Transition

/-! ## The property -/

/-- The archive of the row is gone and `remove()` is about to delete the row. -/
def BeingRemoved (s : State) (id : Nat) : Prop :=
  ∃ i caller copy, s.taskAt i = .removing caller copy true ∧ copy.id = id

/-- The same, rows that `remove()` is just deleting apart. -/
def ReadyBacked (s : State) : Prop :=
  ∀ c ∈ s.copies, c.status = .ready → ∀ storageId, c.storageId = some storageId →
    (storageId, c.objectKey) ∈ s.objects ∨ BeingRemoved s c.id

/-! ## Uploads that do not overlap -/

/-- The task may still remove the object of the backup `id` in the storage. -/
def Task.touches (id : Uuid) (storageId : StorageId) (t : Task) : Bool :=
  match t with
  | .uploading _ up _ => up.backup.id = id ∧ up.storageId = storageId
  | t => t.pending.any fun c => c.backupId = id ∧ c.storageId = some storageId

/-- No task may. -/
def State.locationFree (s : State) (id : Uuid) (storageId : StorageId) : Bool :=
  s.tasks.all fun t => !t.touches id storageId

/-- The step starts no upload while other work may remove the object of its location. -/
def uploadsAlone (s : State) (e : Event) : Bool :=
  (s.startsUpload e).all fun p => s.locationFree p.1 p.2

section

variable {s s' : State}

theorem touches_uploading {caller : UploadCaller} {up : Upload} {phase : UploadPhase} :
    (Task.uploading caller up phase).touches up.backup.id up.storageId = true := by
  simp [Task.touches]

theorem touches_pending {t : Task} {c : StoredCopy} {storageId : StorageId}
    (hc : c ∈ t.pending) (h_st : c.storageId = some storageId) :
    t.touches c.backupId storageId = true := by
  cases t with
  | uploading caller up phase => cases hc
  | _ =>
    rw [Task.touches]
    · exact List.any_eq_true.mpr ⟨c, hc, by simpa using h_st⟩
    · intros
      contradiction

/-- A free location is touched by no task. -/
theorem touches_of_free {id : Uuid} {storageId : StorageId} (h : s.locationFree id storageId = true)
    (i : Nat) : (s.taskAt i).touches id storageId = false := by
  by_cases h_lt : i < s.tasks.length
  · have h_mem : s.taskAt i ∈ s.tasks := by
      simp [taskAt, h_lt]
    have h_not := List.all_eq_true.mp h _ h_mem
    simpa using h_not
  · have h_done : s.taskAt i = .done := by
      simp [taskAt, List.getElem?_eq_none (Nat.le_of_not_lt h_lt)]
    rw [h_done]
    rfl

end

/-! ## Locations are apart -/

/-- A row at the location of a copy that a task still removes is that copy; a row at the
    location of an upload is the upload's own, and there is none once the upload cleans up. -/
structure Apart (s : State) : Prop where
  wf : WellFormed s
  pendingKeyed : ∀ i, ∀ c ∈ (s.taskAt i).pending, Keyed c
  pendingRow : ∀ i, ∀ c ∈ (s.taskAt i).pending, c.storageId.isSome = true →
    ∀ r ∈ s.copies, r.backupId = c.backupId → r.storageId = c.storageId → r.id = c.id
  uploadKey : ∀ i caller up phase, s.taskAt i = .uploading caller up phase →
    up.copy < s.nextCopy ∧ ∃ folder, up.objectKey = keyFor folder (archiveKey up.backup)
  uploadRow : ∀ i caller up phase, s.taskAt i = .uploading caller up phase →
    ∀ r ∈ s.copies, r.backupId = up.backup.id → r.storageId = some up.storageId →
      r.id = up.copy ∧ phase ≠ .cleaning ∧ phase ≠ .cleaned
  ownRow : ∀ i caller up phase, s.taskAt i = .uploading caller up phase →
    ∀ r ∈ s.copies, r.id = up.copy → r.backupId = up.backup.id ∧
      r.storageId = some up.storageId ∧ r.objectKey = up.objectKey

/-- Every row was a row before, its status apart. -/
def RowsFrom (s s' : State) : Prop :=
  ∀ r ∈ s'.copies, ∃ r₀ ∈ s.copies, r₀.id = r.id ∧ r₀.backupId = r.backupId ∧
    r₀.storageId = r.storageId ∧ r₀.objectKey = r.objectKey

section

variable {s s' : State}

theorem RowsFrom.of_same (copies : s'.copies = s.copies) : RowsFrom s s' :=
  fun r hr => ⟨r, copies ▸ hr, rfl, rfl, rfl, rfl⟩

theorem RowsFrom.of_filter {p : StoredCopy → Bool} (copies : s'.copies = s.copies.filter p) :
    RowsFrom s s' :=
  fun r hr => ⟨r, (List.mem_filter.mp (copies ▸ hr)).1, rfl, rfl, rfl, rfl⟩

theorem RowsFrom.of_setStatus {id : Nat} {status : BackupCopyStatus}
    (copies : s'.copies = modifyRow (·.id) id (fun c => { c with status }) s.copies) :
    RowsFrom s s' := by
  intro r hr
  rw [copies, mem_modifyRow] at hr
  obtain ⟨r₀, h_r₀, -, rfl⟩ | ⟨hr, -⟩ := hr
  · exact ⟨r₀, h_r₀, rfl, rfl, rfl, rfl⟩
  · exact ⟨r, hr, rfl, rfl, rfl, rfl⟩

/-- The upload `t` is at, if it is one, is the one the task was at before, and it cleans up
    only when its row is gone. -/
def SameUpload (s : State) (old t : Task) : Prop :=
  ∀ caller up phase, t = .uploading caller up phase →
    ∃ phase₀, old = .uploading caller up phase₀ ∧
      (phase = .cleaning ∨ phase = .cleaned →
        phase₀ = .cleaning ∨ phase₀ = .cleaned ∨ ∀ r ∈ s.copies, r.id ≠ up.copy)

theorem SameUpload.of_plain {old t : Task} (h : t.plain = true) : SameUpload s old t := by
  rintro caller up phase rfl
  cases h

namespace Apart

/-- No row appears, and a task goes on with the copies it had or with rows. -/
theorem shrink (h : Apart s) {i : Nat} {t : Task} (wf : WellFormed s') (rows : RowsFrom s s')
    (nextCopy : s'.nextCopy = s.nextCopy) (tasks : s'.taskAt = Function.update s.taskAt i t)
    (pending : ∀ c ∈ t.pending, c ∈ (s.taskAt i).pending ∨ c ∈ s.copies)
    (upload : SameUpload s (s.taskAt i) t) : Apart s' := by
  -- a held copy was held before, or it was a row
  have h_held : ∀ j, ∀ c ∈ (s'.taskAt j).pending,
      (∃ k, c ∈ (s.taskAt k).pending) ∨ c ∈ s.copies := by
    intro j c hc
    obtain ⟨-, h_t⟩ | ⟨-, h_old⟩ := Suspended.update_cases tasks rfl (j := j)
    · rw [← h_t] at hc
      exact (pending c hc).imp_left fun h_i => ⟨i, h_i⟩
    · rw [← h_old] at hc
      exact .inl ⟨j, hc⟩
  have h_up : ∀ j caller up phase, s'.taskAt j = .uploading caller up phase →
      ∃ phase₀, s.taskAt j = .uploading caller up phase₀ ∧
        (phase = .cleaning ∨ phase = .cleaned →
          phase₀ = .cleaning ∨ phase₀ = .cleaned ∨ ∀ r ∈ s.copies, r.id ≠ up.copy) := by
    intro j caller up phase hj
    obtain ⟨rfl, h_t⟩ | ⟨-, h_old⟩ := Suspended.update_cases tasks hj
    · exact upload caller up phase h_t
    · exact ⟨phase, h_old, fun h_phase => h_phase.imp_right .inl⟩
  refine ⟨wf, ?_, ?_, ?_, ?_, ?_⟩
  · intro j c hc
    obtain ⟨k, hk⟩ | h_row := h_held j c hc
    · exact h.pendingKeyed k c hk
    · exact h.wf.keyed c h_row
  · intro j c hc h_remote r hr h_b h_st
    obtain ⟨r₀, h_r₀, h_id, h_b₀, h_st₀, -⟩ := rows r hr
    obtain ⟨k, hk⟩ | h_row := h_held j c hc
    · rw [← h_id]
      exact h.pendingRow k c hk h_remote r₀ h_r₀ (h_b₀.trans h_b) (h_st₀.trans h_st)
    · have h_same := h.wf.locations.eq_of_col h_r₀ h_row (by simp [h_b₀, h_st₀, h_b, h_st])
      rw [← h_id, h_same]
  · intro j caller up phase hj
    obtain ⟨phase₀, h_old, -⟩ := h_up j caller up phase hj
    rw [nextCopy]
    exact h.uploadKey j caller up phase₀ h_old
  · intro j caller up phase hj r hr h_b h_st
    obtain ⟨r₀, h_r₀, h_id, h_b₀, h_st₀, -⟩ := rows r hr
    obtain ⟨phase₀, h_old, h_clean⟩ := h_up j caller up phase hj
    obtain ⟨h_own, h_ne, h_ne'⟩ :=
      h.uploadRow j caller up phase₀ h_old r₀ h_r₀ (h_b₀.trans h_b) (h_st₀.trans h_st)
    have h_not : ¬ (phase = .cleaning ∨ phase = .cleaned) := by
      intro h_phase
      obtain h_c | h_c | h_gone := h_clean h_phase
      · exact h_ne h_c
      · exact h_ne' h_c
      · exact h_gone r₀ h_r₀ h_own
    exact ⟨h_id ▸ h_own, fun h_c => h_not (.inl h_c), fun h_c => h_not (.inr h_c)⟩
  · intro j caller up phase hj r hr h_own
    obtain ⟨r₀, h_r₀, h_id, h_b₀, h_st₀, h_key₀⟩ := rows r hr
    obtain ⟨phase₀, h_old, -⟩ := h_up j caller up phase hj
    rw [← h_b₀, ← h_st₀, ← h_key₀]
    exact h.ownRow j caller up phase₀ h_old r₀ h_r₀ (h_id.trans h_own)

/-- A row appears at a location that no task touches; the task that goes on holds no copies
    and is at most the upload of that row. -/
theorem grow (h : Apart s) {i : Nat} {t : Task} {c : StoredCopy} (wf : WellFormed s')
    (h_id : c.id = s.nextCopy) (h_free : ∀ storageId, c.storageId = some storageId →
      ∀ j, (s.taskAt j).touches c.backupId storageId = false)
    (tasks : s'.taskAt = Function.update s.taskAt i t) (h_pending : t.pending = [])
    (h_upload : ∀ caller up phase, t = .uploading caller up phase →
      c = up.row ∧ phase = .sending ∧
      (∃ folder, up.objectKey = keyFor folder (archiveKey up.backup)) ∧
      ∀ r ∈ s.copies, ¬ (r.backupId = up.backup.id ∧ r.storageId = some up.storageId))
    (copies : s'.copies = s.copies ++ [c]) (nextCopy : s'.nextCopy = s.nextCopy + 1) :
    Apart s' := by
  have h_rows : ∀ r ∈ s'.copies, r ∈ s.copies ∨ r = c := by
    intro r hr
    rw [copies] at hr
    exact (List.mem_append.mp hr).imp_right List.mem_singleton.mp
  have h_held : ∀ j, ∀ d ∈ (s'.taskAt j).pending, d ∈ (s.taskAt j).pending := by
    intro j d hd
    obtain ⟨-, h_t⟩ | ⟨-, h_old⟩ := Suspended.update_cases tasks rfl (j := j)
    · rw [← h_t, h_pending] at hd
      cases hd
    · rwa [← h_old] at hd
  refine ⟨wf, fun j d hd => h.pendingKeyed j d (h_held j d hd), ?_, ?_, ?_, ?_⟩
  · intro j d hd h_remote r hr h_b h_st
    obtain hr | rfl := h_rows r hr
    · exact h.pendingRow j d (h_held j d hd) h_remote r hr h_b h_st
    · obtain ⟨storageId, h_storage⟩ := Option.isSome_iff_exists.mp h_remote
      have h_touch := touches_pending (h_held j d hd) h_storage
      rw [← h_b, h_free storageId (h_st.trans h_storage) j] at h_touch
      cases h_touch
  · intro j caller up phase hj
    rw [nextCopy]
    obtain ⟨-, h_t⟩ | ⟨-, h_old⟩ := Suspended.update_cases tasks hj
    · obtain ⟨h_row, -, h_key, -⟩ := h_upload caller up phase h_t
      have h_copy : up.copy = s.nextCopy := by rw [← h_id, h_row]; rfl
      exact ⟨by omega, h_key⟩
    · obtain ⟨h_lt, h_key⟩ := h.uploadKey j caller up phase h_old
      exact ⟨by omega, h_key⟩
  · intro j caller up phase hj r hr h_b h_st
    obtain ⟨-, h_t⟩ | ⟨-, h_old⟩ := Suspended.update_cases tasks hj
    · obtain ⟨h_row, h_phase, -, h_vacant⟩ := h_upload caller up phase h_t
      obtain hr | rfl := h_rows r hr
      · exact absurd ⟨h_b, h_st⟩ (h_vacant r hr)
      · rw [h_row, h_phase]
        exact ⟨rfl, by simp, by simp⟩
    · obtain hr | rfl := h_rows r hr
      · exact h.uploadRow j caller up phase h_old r hr h_b h_st
      · have h_touch := h_free up.storageId h_st j
        rw [h_old, h_b, touches_uploading] at h_touch
        cases h_touch
  · intro j caller up phase hj r hr h_own
    obtain ⟨-, h_t⟩ | ⟨-, h_old⟩ := Suspended.update_cases tasks hj
    · obtain ⟨h_row, -, -, -⟩ := h_upload caller up phase h_t
      obtain hr | rfl := h_rows r hr
      · have h_lt := h.wf.fresh r hr
        have h_copy : up.copy = s.nextCopy := by rw [← h_id, h_row]; rfl
        omega
      · rw [h_row]
        exact ⟨rfl, rfl, rfl⟩
    · obtain hr | rfl := h_rows r hr
      · exact h.ownRow j caller up phase h_old r hr h_own
      · have h_lt := (h.uploadKey j caller up phase h_old).1
        omega

/-- One step of a run in which uploads do not overlap. -/
theorem step {e : Event} (h : Apart s) (h_alone : uploadsAlone s e = true)
    (h_step : Copies.step s e = some s') : Apart s' := by
  have wf := h.wf.step h_step
  cases step_effect h.wf h_step with
  | aside i t _ h_new tasks keeps pending =>
    exact h.shrink wf (.of_same keeps.copies) keeps.nextCopy tasks pending (.of_plain h_new)
  | archived i record _ tasks _ _ copies nextCopy _ _ =>
    exact h.grow wf rfl (fun _ h_some => by cases h_some) tasks rfl
      (fun _ _ _ h_t => by cases h_t) copies nextCopy
  | starts i caller up folder _ tasks h_event h_copy h_key _ _ copies nextCopy _ _ =>
    have h_free := touches_of_free (by simpa [uploadsAlone, h_event] using h_alone)
    -- the old row of the location goes first
    have h_vacant : Apart (s.vacate up.backup.id (some up.storageId)) :=
      h.shrink (h.wf.filter rfl rfl h.wf.backupIds fun _ _ b hb _ => hb) (.of_filter rfl) rfl
        (Function.update_eq_self 0 _).symm (fun c hc => .inl hc)
        (fun caller up phase h_t => ⟨phase, h_t, fun h_c => h_c.imp_right .inl⟩)
    refine h_vacant.grow wf h_copy ?_ tasks rfl ?_ copies nextCopy
    · intro storageId h_st j
      cases h_st
      exact h_free j
    · intro caller' up' phase h_t
      cases h_t
      refine ⟨rfl, rfl, ⟨folder, h_key⟩, fun r hr => ?_⟩
      exact of_decide_eq_true (List.mem_filter.mp hr).2
  | put i caller up h_at tasks _ copies nextCopy _ =>
    refine h.shrink wf (.of_same copies) nextCopy tasks (by simp [Task.pending]) ?_
    intro caller' up' phase h_t
    cases h_t
    exact ⟨.sending, h_at, by simp⟩
  | ready i caller up h_at tasks copies nextCopy _ _ =>
    exact h.shrink wf (.of_setStatus copies) nextCopy tasks (by simp [Task.pending])
      (.of_plain rfl)
  | cleans i caller up h_at h_gone tasks keeps =>
    refine h.shrink wf (.of_same keeps.copies) keeps.nextCopy tasks (by simp [Task.pending]) ?_
    intro caller' up' phase h_t
    cases h_t
    exact ⟨.sent, h_at, fun _ => .inr (.inr h_gone)⟩
  | cleaned i caller up h_at tasks _ copies nextCopy _ =>
    refine h.shrink wf (.of_same copies) nextCopy tasks (by simp [Task.pending]) ?_
    intro caller' up' phase h_t
    cases h_t
    exact ⟨.cleaning, h_at, fun _ => .inl rfl⟩
  | fails i caller up phase _ h_at tasks copies nextCopy _ _ =>
    obtain ⟨h_plain, h_pending⟩ := plain_uploadThrew caller up.backup
    exact h.shrink wf (.of_setStatus copies) nextCopy tasks (by simp [h_pending])
      (.of_plain h_plain)
  | archiveGone i caller copy h_at tasks _ copies nextCopy _ =>
    refine h.shrink wf (.of_same copies) nextCopy tasks (fun c hc => .inl ?_)
      (fun _ _ _ h_t => by cases h_t)
    rw [h_at]
    exact hc
  | rowGone i caller copy _ h_at tasks copies nextCopy _ _ _ =>
    refine h.shrink wf (.of_filter copies) nextCopy tasks (fun c hc => .inl ?_) (.of_plain rfl)
    rw [h_at]
    exact List.mem_cons_of_mem _ hc
  | backupGone i id _ tasks copies _ nextCopy _ =>
    exact h.shrink wf (.of_filter copies) nextCopy tasks (by simp [Task.pending]) (.of_plain rfl)

/-- A row with the key of a copy that a task still removes is that copy. -/
theorem id_eq_of_key (h : Apart s) {i : Nat} {c r : StoredCopy} {storageId : StorageId}
    (hc : c ∈ (s.taskAt i).pending) (hr : r ∈ s.copies) (h_c : c.storageId = some storageId)
    (h_r : r.storageId = some storageId) (h_key : c.objectKey = r.objectKey) : r.id = c.id := by
  obtain ⟨folder, record, h_id, h_c_key⟩ := h.pendingKeyed i c hc (by simp [h_c])
  obtain ⟨folder', record', h_id', h_r_key⟩ := h.wf.keyed r hr (by simp [h_r])
  have h_backup : record'.id = record.id :=
    id_eq_of_keyFor (h_r_key.symm.trans (h_key.symm.trans h_c_key))
  apply h.pendingRow i c hc (by simp [h_c]) r hr
  · rw [← h_id', h_backup, h_id]
  · rw [h_r, h_c]

/-- An upload that cleans up removes the object of no row. -/
theorem no_row_of_key (h : Apart s) {i : Nat} {caller : UploadCaller} {up : Upload}
    {r : StoredCopy} (h_at : s.taskAt i = .uploading caller up .cleaning) (hr : r ∈ s.copies)
    (h_r : r.storageId = some up.storageId) (h_key : r.objectKey = up.objectKey) : False := by
  obtain ⟨-, folder, h_up_key⟩ := h.uploadKey i caller up _ h_at
  obtain ⟨folder', record', h_id', h_r_key⟩ := h.wf.keyed r hr (by simp [h_r])
  have h_backup : record'.id = up.backup.id :=
    id_eq_of_keyFor (h_r_key.symm.trans (h_key.trans h_up_key))
  have h_own := h.uploadRow i caller up _ h_at r hr (h_id'.symm.trans h_backup) h_r
  exact h_own.2.1 rfl

end Apart

/-! ## Objects are where the rows say -/

/-- Ready rows have their objects, and so do the rows of uploads that are through, those
    that are being removed apart. -/
structure Stocked (s : State) : Prop where
  backed : ReadyBacked s
  sent : ∀ i caller up, s.taskAt i = .uploading caller up .sent →
    ∀ r ∈ s.copies, r.id = up.copy →
      (up.storageId, up.objectKey) ∈ s.objects ∨ BeingRemoved s up.copy

/-- Only the end of its `remove()` takes the mark from a row. -/
theorem BeingRemoved.of_update {id i : Nat} {t : Task} (h : BeingRemoved s id)
    (h_i : ∀ caller copy, s.taskAt i = .removing caller copy true → copy.id ≠ id)
    (tasks : s'.taskAt = Function.update s.taskAt i t) : BeingRemoved s' id := by
  obtain ⟨j, caller, copy, h_at, h_id⟩ := h
  have h_ne : j ≠ i := by
    rintro rfl
    exact h_i caller copy h_at h_id
  exact ⟨j, caller, copy, by rw [tasks, Function.update_of_ne h_ne, h_at], h_id⟩

namespace Stocked

/-- No object goes. The new ready rows and the upload that `t` is at are accounted for. -/
theorem carry (h_apart : Apart s) (h : Stocked s) {i : Nat} {t : Task}
    (h_ready : ∀ r ∈ s'.copies, r.status = .ready → ∀ storageId, r.storageId = some storageId →
      (storageId, r.objectKey) ∈ s.objects ∨ BeingRemoved s r.id)
    (rows : ∀ r ∈ s'.copies, (∃ r₀ ∈ s.copies, r₀.id = r.id) ∨ r.id = s.nextCopy)
    (objects : ∀ o ∈ s.objects, o ∈ s'.objects)
    (tasks : s'.taskAt = Function.update s.taskAt i t)
    (h_i : ∀ caller copy, s.taskAt i ≠ .removing caller copy true)
    (h_t : ∀ caller up, t = .uploading caller up .sent →
      (up.storageId, up.objectKey) ∈ s'.objects) : Stocked s' := by
  have h_mark : ∀ id, BeingRemoved s id → BeingRemoved s' id := fun id h_id =>
    h_id.of_update (fun caller copy h_at => absurd h_at (h_i caller copy)) tasks
  refine ⟨?_, ?_⟩
  · intro r hr h_status storageId h_st
    exact (h_ready r hr h_status storageId h_st).imp (objects _) (h_mark _)
  · intro j caller up hj r hr h_own
    obtain ⟨-, h_eq⟩ | ⟨-, h_old⟩ := Suspended.update_cases tasks hj
    · exact .inl (h_t caller up h_eq)
    · obtain ⟨r₀, h_r₀, h_id⟩ | h_new := rows r hr
      · exact (h.sent j caller up h_old r₀ h_r₀ (h_id.trans h_own)).imp (objects _) (h_mark _)
      · have h_lt := (h_apart.uploadKey j caller up _ h_old).1
        omega

/-- The same when rows only go or change to another status than ready. -/
theorem carry_rows (h_apart : Apart s) (h : Stocked s) {i : Nat} {t : Task}
    (rows : ∀ r ∈ s'.copies, ∃ r₀ ∈ s.copies, r₀.id = r.id ∧ r₀.storageId = r.storageId ∧
      r₀.objectKey = r.objectKey ∧ (r.status = .ready → r₀.status = .ready))
    (objects : ∀ o ∈ s.objects, o ∈ s'.objects)
    (tasks : s'.taskAt = Function.update s.taskAt i t)
    (h_i : ∀ caller copy, s.taskAt i ≠ .removing caller copy true)
    (h_t : ∀ caller up, t = .uploading caller up .sent →
      (up.storageId, up.objectKey) ∈ s'.objects) : Stocked s' := by
  refine h.carry h_apart ?_ ?_ objects tasks h_i h_t
  · intro r hr h_status storageId h_st
    obtain ⟨r₀, h_r₀, h_id, h_st₀, h_key, h_ready⟩ := rows r hr
    rw [← h_key, ← h_id]
    exact h.backed r₀ h_r₀ (h_ready h_status) storageId (h_st₀.trans h_st)
  · intro r hr
    obtain ⟨r₀, h_r₀, h_id, -⟩ := rows r hr
    exact .inl ⟨r₀, h_r₀, h_id⟩

theorem not_removing_of_plain {t : Task} (h : t.plain = true) :
    ∀ caller copy, t ≠ .removing caller copy true := by
  rintro caller copy rfl
  cases h

/-- The archive of a copy goes, and what loses its object is marked. -/
theorem archiveGone (h_apart : Apart s) (h : Stocked s) {i : Nat} {caller : RemoveCaller}
    {copy : StoredCopy} (h_at : s.taskAt i = .removing caller copy false)
    (tasks : s'.taskAt = Function.update s.taskAt i (.removing caller copy true))
    (objects : ∀ o, o ∈ s'.objects ↔
      o ∈ s.objects ∧ ¬ (copy.storageId = some o.1 ∧ copy.objectKey = o.2))
    (copies : s'.copies = s.copies) : Stocked s' := by
  have h_mark : ∀ id, BeingRemoved s id → BeingRemoved s' id := fun id h_id =>
    h_id.of_update (fun caller copy h_true => by rw [h_at] at h_true; cases h_true) tasks
  have h_copy : BeingRemoved s' copy.id := ⟨i, caller, copy, by rw [tasks]; simp, rfl⟩
  have h_pending : copy ∈ (s.taskAt i).pending := by
    rw [h_at]
    exact List.mem_cons_self
  -- an object that goes belonged to the row of the copy
  have h_lost : ∀ r ∈ s.copies, ∀ storageId, r.storageId = some storageId →
      (storageId, r.objectKey) ∈ s.objects ∨ BeingRemoved s r.id →
      (storageId, r.objectKey) ∈ s'.objects ∨ BeingRemoved s' r.id := by
    rintro r hr storageId h_st (h_mem | h_old)
    · by_cases h_gone : copy.storageId = some storageId ∧ copy.objectKey = r.objectKey
      · right
        rw [h_apart.id_eq_of_key h_pending hr h_gone.1 h_st h_gone.2]
        exact h_copy
      · exact .inl ((objects _).mpr ⟨h_mem, h_gone⟩)
    · exact .inr (h_mark _ h_old)
  refine ⟨?_, ?_⟩
  · intro r hr h_status storageId h_st
    rw [copies] at hr
    exact h_lost r hr storageId h_st (h.backed r hr h_status storageId h_st)
  · intro j caller' up hj r hr h_own
    rw [copies] at hr
    obtain ⟨-, h_eq⟩ | ⟨-, h_old⟩ := Suspended.update_cases tasks hj
    · cases h_eq
    · obtain ⟨-, h_st, h_key⟩ := h_apart.ownRow j caller' up _ h_old r hr h_own
      rw [← h_key, ← h_own]
      apply h_lost r hr up.storageId h_st
      rw [h_key, h_own]
      exact h.sent j caller' up h_old r hr h_own

/-- An upload whose row is gone removes its object, which no row has. -/
theorem cleaned (h_apart : Apart s) (h : Stocked s) {i : Nat} {caller : UploadCaller}
    {up : Upload} (h_at : s.taskAt i = .uploading caller up .cleaning)
    (tasks : s'.taskAt = Function.update s.taskAt i (.uploading caller up .cleaned))
    (objects : ∀ o, o ∈ s'.objects ↔ o ∈ s.objects ∧ o ≠ (up.storageId, up.objectKey))
    (copies : s'.copies = s.copies) : Stocked s' := by
  have h_mark : ∀ id, BeingRemoved s id → BeingRemoved s' id := fun id h_id =>
    h_id.of_update (fun caller copy h_true => by rw [h_at] at h_true; cases h_true) tasks
  have h_kept : ∀ r ∈ s.copies, ∀ storageId, r.storageId = some storageId →
      (storageId, r.objectKey) ∈ s.objects → (storageId, r.objectKey) ∈ s'.objects := by
    intro r hr storageId h_st h_mem
    refine (objects _).mpr ⟨h_mem, fun h_eq => ?_⟩
    obtain ⟨rfl, h_key⟩ := Prod.mk.inj h_eq
    exact h_apart.no_row_of_key h_at hr h_st h_key
  refine ⟨?_, ?_⟩
  · intro r hr h_status storageId h_st
    rw [copies] at hr
    exact (h.backed r hr h_status storageId h_st).imp (h_kept r hr storageId h_st) (h_mark _)
  · intro j caller' up' hj r hr h_own
    rw [copies] at hr
    obtain ⟨-, h_eq⟩ | ⟨-, h_old⟩ := Suspended.update_cases tasks hj
    · cases h_eq
    · obtain ⟨-, h_st, h_key⟩ := h_apart.ownRow j caller' up' _ h_old r hr h_own
      refine (h.sent j caller' up' h_old r hr h_own).imp (fun h_mem => ?_) (h_mark _)
      rw [← h_key] at h_mem ⊢
      exact h_kept r hr up'.storageId h_st h_mem

/-- The row of a removed copy goes; the other rows keep their marks. -/
theorem rowGone (h : Stocked s) {i : Nat} {caller : RemoveCaller} {copy : StoredCopy}
    (h_at : s.taskAt i = .removing caller copy true)
    (tasks : s'.taskAt = Function.update s.taskAt i (.removed caller))
    (copies : s'.copies = s.copies.filter (·.id ≠ copy.id)) (objects : s'.objects = s.objects) :
    Stocked s' := by
  have h_row : ∀ r ∈ s'.copies, r ∈ s.copies ∧ copy.id ≠ r.id := by
    intro r hr
    rw [copies, List.mem_filter] at hr
    exact ⟨hr.1, Ne.symm (of_decide_eq_true hr.2)⟩
  have h_mark : ∀ r ∈ s'.copies, BeingRemoved s r.id → BeingRemoved s' r.id := by
    intro r hr h_old
    refine h_old.of_update (fun caller' copy' h_true => ?_) tasks
    rw [h_at] at h_true
    cases h_true
    exact (h_row r hr).2
  refine ⟨?_, ?_⟩
  · intro r hr h_status storageId h_st
    rw [objects]
    exact (h.backed r (h_row r hr).1 h_status storageId h_st).imp_right (h_mark r hr)
  · intro j caller' up hj r hr h_own
    rw [objects]
    obtain ⟨-, h_eq⟩ | ⟨-, h_old⟩ := Suspended.update_cases tasks hj
    · cases h_eq
    · refine (h.sent j caller' up h_old r (h_row r hr).1 h_own).imp_right fun h_m => ?_
      rw [← h_own] at h_m ⊢
      exact h_mark r hr h_m

/-- One step. -/
theorem step {e : Event} (h_apart : Apart s) (h : Stocked s)
    (h_step : Copies.step s e = some s') : Stocked s' := by
  cases step_effect h_apart.wf h_step with
  | aside i t h_old h_new tasks keeps _ =>
    refine h.carry_rows h_apart ?_ (by simp [keeps.objects]) tasks
      (not_removing_of_plain h_old) (fun caller up h_t => by rw [h_t] at h_new; cases h_new)
    intro r hr
    exact ⟨r, keeps.copies ▸ hr, rfl, rfl, rfl, fun h => h⟩
  | archived i record h_at tasks _ _ copies _ objects _ =>
    refine h.carry h_apart ?_ ?_ (by simp [objects]) tasks (by simp [h_at])
      (fun _ _ h_t => by cases h_t)
    · intro r hr h_status storageId h_st
      rw [copies] at hr
      obtain hr | hr := List.mem_append.mp hr
      · exact h.backed r hr h_status storageId h_st
      · rw [List.mem_singleton.mp hr] at h_st
        cases h_st
    · intro r hr
      rw [copies] at hr
      obtain hr | hr := List.mem_append.mp hr
      · exact .inl ⟨r, hr, rfl⟩
      · exact .inr (by rw [List.mem_singleton.mp hr])
  | starts i caller up folder h_old tasks _ h_copy _ _ _ copies _ objects _ =>
    refine h.carry h_apart ?_ ?_ (by simp [objects]) tasks (not_removing_of_plain h_old)
      (fun _ _ h_t => by cases h_t)
    · intro r hr h_status storageId h_st
      rw [copies] at hr
      obtain hr | hr := List.mem_append.mp hr
      · exact h.backed r (List.mem_filter.mp hr).1 h_status storageId h_st
      · rw [List.mem_singleton.mp hr] at h_status
        cases h_status
    · intro r hr
      rw [copies] at hr
      obtain hr | hr := List.mem_append.mp hr
      · exact .inl ⟨r, (List.mem_filter.mp hr).1, rfl⟩
      · right
        rw [List.mem_singleton.mp hr]
        exact h_copy
  | put i caller up h_at tasks objects copies _ _ =>
    refine h.carry_rows h_apart ?_ ?_ tasks (by simp [h_at]) ?_
    · intro r hr
      exact ⟨r, copies ▸ hr, rfl, rfl, rfl, fun h => h⟩
    · intro o ho
      rw [objects]
      exact List.mem_cons_of_mem _ ho
    · intro caller' up' h_t
      cases h_t
      rw [objects]
      exact List.mem_cons_self
  | ready i caller up h_at tasks copies _ objects _ =>
    refine h.carry h_apart ?_ ?_ (by simp [objects]) tasks (by simp [h_at])
      (fun _ _ h_t => by cases h_t)
    · intro r hr h_status storageId h_st
      rw [copies, mem_modifyRow] at hr
      obtain ⟨r₀, h_r₀, h_own, rfl⟩ | ⟨hr, -⟩ := hr
      · -- the row of the upload: its object was put and is there unless it is removed
        obtain ⟨-, h_st₀, h_key⟩ := h_apart.ownRow i caller up _ h_at r₀ h_r₀ h_own
        have h_eq : up.storageId = storageId := Option.some.inj (h_st₀.symm.trans h_st)
        show (storageId, r₀.objectKey) ∈ s.objects ∨ BeingRemoved s r₀.id
        rw [← h_eq, h_key, h_own]
        exact h.sent i caller up h_at r₀ h_r₀ h_own
      · exact h.backed r hr h_status storageId h_st
    · intro r hr
      rw [copies, mem_modifyRow] at hr
      obtain ⟨r₀, h_r₀, -, rfl⟩ | ⟨hr, -⟩ := hr
      · exact .inl ⟨r₀, h_r₀, rfl⟩
      · exact .inl ⟨r, hr, rfl⟩
  | cleans i caller up h_at _ tasks keeps =>
    refine h.carry_rows h_apart ?_ (by simp [keeps.objects]) tasks (by simp [h_at])
      (fun _ _ h_t => by cases h_t)
    intro r hr
    exact ⟨r, keeps.copies ▸ hr, rfl, rfl, rfl, fun h => h⟩
  | cleaned i caller up h_at tasks objects copies _ _ =>
    exact h.cleaned h_apart h_at tasks objects copies
  | fails i caller up phase _ h_at tasks copies _ objects _ =>
    refine h.carry_rows h_apart ?_ (by simp [objects]) tasks (by simp [h_at]) ?_
    · intro r hr
      rw [copies, mem_modifyRow] at hr
      obtain ⟨r₀, h_r₀, -, rfl⟩ | ⟨hr, -⟩ := hr
      · exact ⟨r₀, h_r₀, rfl, rfl, rfl, fun h => by cases h⟩
      · exact ⟨r, hr, rfl, rfl, rfl, fun h => h⟩
    · intro caller' up' h_t
      have h_plain := (plain_uploadThrew caller up.backup).1
      rw [h_t] at h_plain
      cases h_plain
  | archiveGone i caller copy h_at tasks objects copies _ _ =>
    exact h.archiveGone h_apart h_at tasks objects copies
  | rowGone i caller copy _ h_at tasks copies _ objects _ _ =>
    exact h.rowGone h_at tasks copies objects
  | backupGone i id h_old tasks copies _ _ objects =>
    refine h.carry_rows h_apart ?_ (by simp [objects]) tasks (not_removing_of_plain h_old)
      (fun _ _ h_t => by cases h_t)
    intro r hr
    rw [copies] at hr
    exact ⟨r, (List.mem_filter.mp hr).1, rfl, rfl, rfl, fun h => h⟩

end Stocked

end

/-! ## Every run -/

/-- A backup that is uploaded as soon as it is there. -/
def createAndUpload : List Event :=
  [.create nightly "smp" .zip 0, .packSucceeds 0, .afterCreate 0 autoUpload (some "kubek"),
   .objectPut 0, .uploadResolves 0]

/-- The remote copy is removed, and its object is gone before its row. -/
def removeRemote : List Event := createAndUpload ++ [.remove 1, .archiveGone 1]

/-- Two uploads to one storage: the second replaces the row of the first and the first
    removes the object of the second. Then all work is over. -/
def twoUploads : List Event :=
  [.create nightly "smp" .zip 0, .packSucceeds 0, .afterCreate 0 keepAll none,
   .afterWork 0 keepAll 0, .upload nightly "s3" (some "kubek"),
   .upload nightly "s3" (some "kubek"), .objectPut 1, .objectPut 2, .uploadResolves 1,
   .uploadResolves 2, .archiveGone 1, .uploadFails 1, .afterUpload 2, .afterWork 2 keepAll 0]

end Kubek.Backups.Copies
