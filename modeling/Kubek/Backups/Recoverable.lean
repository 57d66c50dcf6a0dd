/-
  Kubek.Backups.Recoverable

  A completed backup and the copy it can be restored from.

  A backup is completed together with its first ready row, and `remove()` lets it go
  with its last row. It counts every row, the ones failed uploads left behind included:
  the removal of the last ready copy then keeps a completed backup that nothing can
  restore (`failed_row_keeps_backup`). While no removal and no failed upload leaves a
  backup with failed rows only, every completed backup that no work is on has a ready
  copy (`recoverable_of_reachableUnder`).
-/

import Kubek.Backups.CopySteps

namespace Kubek.Backups.Copies

open State KeyedRows Transition

/-! ## Work on a backup -/

/-- The backup a task is at work on. -/
def Task.backupId : Task → Option Uuid
  | .packing record | .packed record | .uploaded _ record => some record.id
  | .uploading _ up _ => some up.backup.id
  | .removing _ copy _ => some copy.backupId
  | .removed (.dropLocal record) => some record.id
  | .removed (.removeAll id _) => some id
  | .removed (.request) | .removed (.prune _ _) | .retention _ | .restoring _ | .done => none

/-- Every completed backup that no task is at work on has a ready copy. -/
def RecoverableAtRest (s : State) : Prop :=
  ∀ b ∈ s.backups, b.status = .completed → (∀ t ∈ s.tasks, t.backupId ≠ some b.id) →
    ∃ c ∈ s.copies, c.backupId = b.id ∧ c.status = .ready

instance (s : State) : Decidable (RecoverableAtRest s) :=
  inferInstanceAs (Decidable (∀ b ∈ s.backups, b.status = .completed →
    (∀ t ∈ s.tasks, t.backupId ≠ some b.id) →
      ∃ c ∈ s.copies, c.backupId = b.id ∧ c.status = .ready))

/-! ## Rows that still count -/

/-- The rows of a backup without one of them. -/
def State.otherCopies (s : State) (id : Uuid) (copy : Nat) : List StoredCopy :=
  (s.copiesOf id).filter (·.id ≠ copy)

/-- No removal of a copy and no failed upload leaves its backup with failed rows only. -/
def keepsLiveRow (s : State) : Event → Bool
  | .removeResolves i =>
      match s.taskAt i with
      | .removing _ copy true =>
          let others := s.otherCopies copy.backupId copy.id
          others.isEmpty || others.any (·.status ≠ .failed)
      | _ => true
  | .uploadFails i =>
      match s.taskAt i with
      | .uploading _ up _ =>
          (s.findCopy up.copy).isNone ||
            (s.otherCopies up.backup.id up.copy).any (·.status ≠ .failed)
      | _ => true
  | _ => true

/-- A completed backup has a row that is ready or on its way, and a row on its way has its
    upload. -/
structure LiveRows (s : State) : Prop where
  wf : WellFormed s
  live : ∀ b ∈ s.backups, b.status = .completed →
    ∃ c ∈ s.copies, c.backupId = b.id ∧ c.status ≠ .failed
  uploads : ∀ c ∈ s.copies, c.status = .uploading →
    ∃ i caller up phase, s.taskAt i = .uploading caller up phase ∧ up.copy = c.id ∧
      up.backup.id = c.backupId
  old : ∀ i caller up phase, s.taskAt i = .uploading caller up phase →
    up.copy < s.nextCopy ∧ ∀ c ∈ s.copies, c.id = up.copy → c.backupId = up.backup.id
  held : ∀ i, ∀ d ∈ (s.taskAt i).pending,
    d.id < s.nextCopy ∧ ∀ c ∈ s.copies, c.id = d.id → c.backupId = d.backupId

namespace LiveRows

variable {s s' : State}

/-- Nothing is on its way to a backup at rest, so its live row is ready. -/
theorem recoverableAtRest (h : LiveRows s) : RecoverableAtRest s := by
  intro b hb h_status h_rest
  obtain ⟨c, hc, h_b, h_live⟩ := h.live b hb h_status
  refine ⟨c, hc, h_b, ?_⟩
  cases h_c : c.status with
  | ready => rfl
  | failed => exact absurd h_c h_live
  | uploading =>
    obtain ⟨i, caller, up, phase, h_at, -, h_up⟩ := h.uploads c hc h_c
    have h_mem : s.taskAt i ∈ s.tasks := taskAt_mem (by simp [h_at])
    rw [h_at] at h_mem
    have h_id : (Task.uploading caller up phase).backupId = some b.id := by
      rw [← h_b, ← h_up]
      rfl
    exact absurd h_id (h_rest _ h_mem)

/-- No upload starts. `live` accounts for the backups that lost a live row, and `moved` for
    the row of the task that went on. -/
theorem carry (h : LiveRows s) {i : Nat} {t : Task} (wf : WellFormed s')
    (live : ∀ b ∈ s'.backups, b.status = .completed →
      ∃ c ∈ s'.copies, c.backupId = b.id ∧ c.status ≠ .failed)
    (moved : ∀ c ∈ s'.copies, c.status = .uploading → c ∈ s.copies ∧
      ∀ caller up phase, s.taskAt i = .uploading caller up phase → up.copy = c.id →
        ∃ phase', t = .uploading caller up phase')
    (rows : ∀ c ∈ s'.copies, (∃ c₀ ∈ s.copies, c₀.id = c.id ∧ c₀.backupId = c.backupId) ∨
      c.id = s.nextCopy)
    (nextCopy : s.nextCopy ≤ s'.nextCopy) (tasks : s'.taskAt = Function.update s.taskAt i t)
    (upload : ∀ caller up phase, t = .uploading caller up phase →
      ∃ phase₀, s.taskAt i = .uploading caller up phase₀)
    (pending : ∀ c ∈ t.pending, c ∈ (s.taskAt i).pending ∨ c ∈ s.copies) : LiveRows s' := by
  refine ⟨wf, live, ?_, ?_, ?_⟩
  · intro c hc h_status
    obtain ⟨h_old, h_moved⟩ := moved c hc h_status
    obtain ⟨j, caller, up, phase, h_at, h_copy, h_b⟩ := h.uploads c h_old h_status
    by_cases hj : j = i
    · subst hj
      obtain ⟨phase', rfl⟩ := h_moved caller up phase h_at h_copy
      exact ⟨j, caller, up, phase', by rw [tasks, Function.update_self], h_copy, h_b⟩
    · exact ⟨j, caller, up, phase, by rw [tasks, Function.update_of_ne hj, h_at], h_copy, h_b⟩
  · intro j caller up phase hj
    have h_old : ∃ k phase₀, s.taskAt k = .uploading caller up phase₀ := by
      obtain ⟨-, h_t⟩ | ⟨-, h_j⟩ := Suspended.update_cases tasks hj
      · obtain ⟨phase₀, h_i⟩ := upload caller up phase h_t
        exact ⟨i, phase₀, h_i⟩
      · exact ⟨j, phase, h_j⟩
    obtain ⟨k, phase₀, h_k⟩ := h_old
    obtain ⟨h_lt, h_own⟩ := h.old k caller up phase₀ h_k
    refine ⟨by omega, fun c hc h_id => ?_⟩
    obtain ⟨c₀, h_c₀, h_id₀, h_b⟩ | h_new := rows c hc
    · rw [← h_b]
      exact h_own c₀ h_c₀ (h_id₀.trans h_id)
    · omega
  · intro j d hd
    have h_old : d.id < s.nextCopy ∧ ∀ c ∈ s.copies, c.id = d.id → c.backupId = d.backupId := by
      have h_row : d ∈ s.copies → d.id < s.nextCopy ∧
          ∀ c ∈ s.copies, c.id = d.id → c.backupId = d.backupId := by
        refine fun h_d => ⟨h.wf.fresh d h_d, fun c hc h_id => ?_⟩
        rw [h.wf.copyIds.eq_of_col hc h_d h_id]
      obtain ⟨-, h_t⟩ | ⟨-, h_j⟩ := Suspended.update_cases tasks rfl (j := j)
      · rw [← h_t] at hd
        obtain h_i | h_d := pending d hd
        · exact h.held i d h_i
        · exact h_row h_d
      · rw [← h_j] at hd
        exact h.held j d hd
    refine ⟨by omega, fun c hc h_id => ?_⟩
    obtain ⟨c₀, h_c₀, h_id₀, h_b⟩ | h_new := rows c hc
    · rw [← h_b]
      exact h_old.2 c₀ h_c₀ (h_id₀.trans h_id)
    · omega

/-- The task that goes on is no upload, and neither is what it becomes. -/
theorem not_uploading_of_plain {t : Task} (h : t.plain = true) :
    ∀ caller up phase, t ≠ .uploading caller up phase := by
  rintro caller up phase rfl
  cases h

/-- Rows of the tables before, their status apart. -/
theorem rows_of_setStatus {id : Nat} {status : BackupCopyStatus}
    (copies : s'.copies = modifyRow (·.id) id (fun c => { c with status }) s.copies) :
    ∀ c ∈ s'.copies, (∃ c₀ ∈ s.copies, c₀.id = c.id ∧ c₀.backupId = c.backupId) ∨
      c.id = s.nextCopy := by
  intro c hc
  rw [copies, mem_modifyRow] at hc
  obtain ⟨c₀, h_c₀, -, rfl⟩ | ⟨hc, -⟩ := hc
  · exact .inl ⟨c₀, h_c₀, rfl, rfl⟩
  · exact .inl ⟨c, hc, rfl, rfl⟩

/-- The row of an upload ends, so it is no row on its way any more. -/
theorem moved_of_setStatus {i : Nat} {t : Task} {caller : UploadCaller} {up : Upload}
    {phase : UploadPhase} {status : BackupCopyStatus} (h_status : status ≠ .uploading)
    (h_at : s.taskAt i = .uploading caller up phase)
    (copies : s'.copies = modifyRow (·.id) up.copy (fun c => { c with status }) s.copies) :
    ∀ c ∈ s'.copies, c.status = .uploading → c ∈ s.copies ∧
      ∀ caller up phase, s.taskAt i = .uploading caller up phase → up.copy = c.id →
        ∃ phase', t = .uploading caller up phase' := by
  intro c hc h_c
  rw [copies, mem_modifyRow] at hc
  obtain ⟨c₀, h_c₀, -, rfl⟩ | ⟨hc, h_ne⟩ := hc
  · exact absurd h_c h_status
  · refine ⟨hc, fun caller' up' phase' h_at' h_copy => ?_⟩
    rw [h_at] at h_at'
    cases h_at'
    exact absurd h_copy.symm h_ne

/-- One step of a run that keeps a live row. -/
theorem step {e : Event} (h : LiveRows s) (h_guard : keepsLiveRow s e = true)
    (h_step : Copies.step s e = some s') : LiveRows s' := by
  have wf := h.wf.step h_step
  cases step_effect h.wf h_step with
  | aside i t h_old h_new tasks keeps pending =>
    refine h.carry wf ?_ ?_ ?_ (by rw [keeps.nextCopy]) tasks
      (fun caller up phase h_t => absurd h_t (not_uploading_of_plain h_new caller up phase))
      pending
    · intro b hb h_status
      obtain ⟨b₀, h_b₀, h_id, h_status₀⟩ := keeps.completed b hb h_status
      rw [keeps.copies, ← h_id]
      exact h.live b₀ h_b₀ h_status₀
    · intro c hc _
      exact ⟨keeps.copies ▸ hc, fun caller up phase h_at =>
        absurd h_at (not_uploading_of_plain h_old caller up phase)⟩
    · exact fun c hc => .inl ⟨c, keeps.copies ▸ hc, rfl, rfl⟩
  | archived i record h_at tasks _ _ copies nextCopy _ backups =>
    refine h.carry wf ?_ ?_ ?_ (by omega) tasks (fun _ _ _ h_t => by cases h_t)
      (by simp [Task.pending])
    · intro b hb h_status
      rw [backups, mem_modifyRow] at hb
      rw [copies]
      obtain ⟨b₀, -, h_id, rfl⟩ | ⟨hb, -⟩ := hb
      · exact ⟨_, List.mem_append_right _ (List.mem_singleton.mpr rfl), h_id.symm, by simp⟩
      · obtain ⟨c, hc, h_b, h_live⟩ := h.live b hb h_status
        exact ⟨c, List.mem_append_left _ hc, h_b, h_live⟩
    · intro c hc h_status
      rw [copies] at hc
      obtain hc | hc := List.mem_append.mp hc
      · exact ⟨hc, by simp [h_at]⟩
      · rw [List.mem_singleton.mp hc] at h_status
        cases h_status
    · intro c hc
      rw [copies] at hc
      obtain hc | hc := List.mem_append.mp hc
      · exact .inl ⟨c, hc, rfl, rfl⟩
      · exact .inr (by rw [List.mem_singleton.mp hc])
  | starts i caller up folder h_old tasks _ h_copy _ _ _ copies nextCopy _ backups =>
    have h_rows : ∀ c ∈ s'.copies, c ∈ s.copies ∨ c = up.row := by
      intro c hc
      rw [copies] at hc
      exact (List.mem_append.mp hc).imp (fun hc => (List.mem_filter.mp hc).1) List.mem_singleton.mp
    have h_row : up.row ∈ s'.copies := by
      rw [copies]
      exact List.mem_append_right _ (List.mem_singleton.mpr rfl)
    refine ⟨wf, ?_, ?_, ?_, ?_⟩
    · intro b hb h_status
      rw [backups] at hb
      obtain ⟨c, hc, h_b, h_live⟩ := h.live b hb h_status
      by_cases h_at : c.backupId = up.backup.id ∧ c.storageId = some up.storageId
      · exact ⟨up.row, h_row, h_at.1.symm.trans h_b, by simp [Upload.row]⟩
      · refine ⟨c, ?_, h_b, h_live⟩
        rw [copies]
        exact List.mem_append_left _ (List.mem_filter.mpr ⟨hc, decide_eq_true h_at⟩)
    · intro c hc h_status
      obtain hc | rfl := h_rows c hc
      · obtain ⟨j, caller', up', phase', h_at, h_c, h_b⟩ := h.uploads c hc h_status
        have h_ne : j ≠ i := by
          rintro rfl
          exact not_uploading_of_plain h_old caller' up' phase' h_at
        exact ⟨j, caller', up', phase', by rw [tasks, Function.update_of_ne h_ne, h_at], h_c, h_b⟩
      · exact ⟨i, caller, up, .sending, by rw [tasks, Function.update_self], rfl, rfl⟩
    · intro j caller' up' phase' hj
      obtain ⟨-, h_t⟩ | ⟨-, h_j⟩ := Suspended.update_cases tasks hj
      · cases h_t
        refine ⟨by omega, fun c hc h_id => ?_⟩
        obtain hc | rfl := h_rows c hc
        · have h_lt := h.wf.fresh c hc
          omega
        · rfl
      · obtain ⟨h_lt, h_own⟩ := h.old j caller' up' phase' h_j
        refine ⟨by omega, fun c hc h_id => ?_⟩
        obtain hc | rfl := h_rows c hc
        · exact h_own c hc h_id
        · have h_id' : up.copy = up'.copy := h_id
          omega
    · intro j d hd
      obtain ⟨-, h_t⟩ | ⟨-, h_j⟩ := Suspended.update_cases tasks rfl (j := j)
      · rw [← h_t] at hd
        cases hd
      · rw [← h_j] at hd
        obtain ⟨h_lt, h_own⟩ := h.held j d hd
        refine ⟨by omega, fun c hc h_id => ?_⟩
        obtain hc | rfl := h_rows c hc
        · exact h_own c hc h_id
        · have h_id' : up.copy = d.id := h_id
          omega
  | put i caller up h_at tasks _ copies nextCopy backups =>
    refine h.carry wf (by rw [backups, copies]; exact h.live) ?_ ?_ (by rw [nextCopy]) tasks ?_
      (by simp [Task.pending])
    · intro c hc _
      refine ⟨copies ▸ hc, fun caller' up' phase' h_at' _ => ?_⟩
      rw [h_at] at h_at'
      cases h_at'
      exact ⟨_, rfl⟩
    · exact fun c hc => .inl ⟨c, copies ▸ hc, rfl, rfl⟩
    · intro caller' up' phase' h_t
      cases h_t
      exact ⟨_, h_at⟩
  | ready i caller up h_at tasks copies nextCopy _ backups =>
    refine h.carry wf ?_ (moved_of_setStatus (by simp) h_at copies) (rows_of_setStatus copies)
      (by rw [nextCopy]) tasks (fun _ _ _ h_t => by cases h_t) (by simp [Task.pending])
    intro b hb h_status
    rw [backups] at hb
    obtain ⟨c, hc, h_b, h_live⟩ := h.live b hb h_status
    rw [copies]
    by_cases h_id : c.id = up.copy
    · exact ⟨{ c with status := .ready }, mem_modifyRow.mpr (.inl ⟨c, hc, h_id, rfl⟩), h_b, by simp⟩
    · exact ⟨c, mem_modifyRow.mpr (.inr ⟨hc, h_id⟩), h_b, h_live⟩
  | cleans i caller up h_at _ tasks keeps =>
    refine h.carry wf ?_ ?_ ?_ (by rw [keeps.nextCopy]) tasks ?_ (by simp [Task.pending])
    · intro b hb h_status
      obtain ⟨b₀, h_b₀, h_id, h_status₀⟩ := keeps.completed b hb h_status
      rw [keeps.copies, ← h_id]
      exact h.live b₀ h_b₀ h_status₀
    · intro c hc _
      refine ⟨keeps.copies ▸ hc, fun caller' up' phase' h_at' _ => ?_⟩
      rw [h_at] at h_at'
      cases h_at'
      exact ⟨_, rfl⟩
    · exact fun c hc => .inl ⟨c, keeps.copies ▸ hc, rfl, rfl⟩
    · intro caller' up' phase' h_t
      cases h_t
      exact ⟨_, h_at⟩
  | cleaned i caller up h_at tasks _ copies nextCopy backups =>
    refine h.carry wf (by rw [backups, copies]; exact h.live) ?_ ?_ (by rw [nextCopy]) tasks ?_
      (by simp [Task.pending])
    · intro c hc _
      refine ⟨copies ▸ hc, fun caller' up' phase' h_at' _ => ?_⟩
      rw [h_at] at h_at'
      cases h_at'
      exact ⟨_, rfl⟩
    · exact fun c hc => .inl ⟨c, copies ▸ hc, rfl, rfl⟩
    · intro caller' up' phase' h_t
      cases h_t
      exact ⟨_, h_at⟩
  | fails i caller up phase he h_at tasks copies nextCopy _ backups =>
    subst he
    refine h.carry wf ?_ (moved_of_setStatus (by simp) h_at copies) (rows_of_setStatus copies)
      (by rw [nextCopy]) tasks ?_ (by simp [(plain_uploadThrew caller up.backup).2])
    · intro b hb h_status
      rw [backups] at hb
      obtain ⟨c, hc, h_b, h_live⟩ := h.live b hb h_status
      rw [copies]
      by_cases h_id : c.id = up.copy
      · -- the live row fails: the guard names another one
        have h_own := (h.old i caller up phase h_at).2 c hc h_id
        simp only [keepsLiveRow, h_at, Bool.or_eq_true] at h_guard
        obtain h_gone | h_other := h_guard
        · exact absurd h_id (findCopy_isNone h_gone c hc)
        · obtain ⟨d, hd, h_d⟩ := List.any_eq_true.mp h_other
          obtain ⟨h_of, h_ne⟩ := List.mem_filter.mp hd
          obtain ⟨h_mem, h_db⟩ := mem_copiesOf.mp h_of
          exact ⟨d, mem_modifyRow.mpr (.inr ⟨h_mem, of_decide_eq_true h_ne⟩),
            h_db.trans (h_own.symm.trans h_b), of_decide_eq_true h_d⟩
      · exact ⟨c, mem_modifyRow.mpr (.inr ⟨hc, h_id⟩), h_b, h_live⟩
    · intro caller' up' phase' h_t
      have h_plain := (plain_uploadThrew caller up.backup).1
      exact absurd h_t (not_uploading_of_plain h_plain caller' up' phase')
  | archiveGone i caller copy h_at tasks _ copies nextCopy backups =>
    refine h.carry wf (by rw [backups, copies]; exact h.live) ?_ ?_ (by rw [nextCopy]) tasks
      (fun _ _ _ h_t => by cases h_t) (fun c hc => .inl (by rw [h_at]; exact hc))
    · intro c hc _
      exact ⟨copies ▸ hc, by simp [h_at]⟩
    · exact fun c hc => .inl ⟨c, copies ▸ hc, rfl, rfl⟩
  | rowGone i caller copy he h_at tasks copies nextCopy _ backups _ =>
    subst he
    refine h.carry wf ?_ ?_ ?_ (by rw [nextCopy]) tasks (fun _ _ _ h_t => by cases h_t)
      (fun c hc => .inl (by rw [h_at]; exact List.mem_cons_of_mem _ hc))
    · intro b hb h_status
      obtain ⟨h_old, h_more⟩ := (backups b).mp hb
      by_cases h_b : b.id = copy.backupId
      · -- a row of the backup stays, so the guard names a live one
        obtain ⟨d, hd, h_d⟩ := h_more h_b
        rw [copies, List.mem_filter] at hd
        have h_other : d ∈ s.otherCopies copy.backupId copy.id :=
          List.mem_filter.mpr ⟨mem_copiesOf.mpr ⟨hd.1, h_d.trans h_b⟩, hd.2⟩
        simp only [keepsLiveRow, h_at, Bool.or_eq_true] at h_guard
        obtain h_empty | h_live := h_guard
        · rw [List.isEmpty_iff.mp h_empty] at h_other
          cases h_other
        · obtain ⟨c, hc, h_c⟩ := List.any_eq_true.mp h_live
          obtain ⟨h_of, h_ne⟩ := List.mem_filter.mp hc
          obtain ⟨h_mem, h_cb⟩ := mem_copiesOf.mp h_of
          rw [copies]
          exact ⟨c, List.mem_filter.mpr ⟨h_mem, h_ne⟩, h_cb.trans h_b.symm, of_decide_eq_true h_c⟩
      · obtain ⟨c, hc, h_cb, h_live⟩ := h.live b h_old h_status
        rw [copies]
        refine ⟨c, List.mem_filter.mpr ⟨hc, decide_eq_true fun h_id => ?_⟩, h_cb, h_live⟩
        have h_held := (h.held i copy (by rw [h_at]; exact List.mem_cons_self)).2 c hc h_id
        exact h_b (h_cb.symm.trans h_held)
    · intro c hc _
      rw [copies] at hc
      exact ⟨(List.mem_filter.mp hc).1, by simp [h_at]⟩
    · intro c hc
      rw [copies] at hc
      exact .inl ⟨c, (List.mem_filter.mp hc).1, rfl, rfl⟩
  | backupGone i id h_old tasks copies backups nextCopy _ =>
    refine h.carry wf ?_ ?_ ?_ (by rw [nextCopy]) tasks (fun _ _ _ h_t => by cases h_t)
      (by simp [Task.pending])
    · intro b hb h_status
      rw [backups, List.mem_filter] at hb
      obtain ⟨c, hc, h_b, h_live⟩ := h.live b hb.1 h_status
      rw [copies]
      refine ⟨c, List.mem_filter.mpr ⟨hc, ?_⟩, h_b, h_live⟩
      rw [h_b]
      exact hb.2
    · intro c hc _
      rw [copies] at hc
      exact ⟨(List.mem_filter.mp hc).1, fun caller up phase h_at =>
        absurd h_at (not_uploading_of_plain h_old caller up phase)⟩
    · intro c hc
      rw [copies] at hc
      exact .inl ⟨c, (List.mem_filter.mp hc).1, rfl, rfl⟩

end LiveRows

/-! ## Every run -/

/-- **Completed backups can be restored.** In every run in which no removal of a copy and no
    failed upload leaves its backup with failed rows only, every completed backup that no
    task is at work on has a ready copy. -/
theorem recoverable_of_reachableUnder {s : State}
    (h : machine.ReachableUnder (fun s e => keepsLiveRow s e = true) s) : RecoverableAtRest s := by
  refine LiveRows.recoverableAtRest (Machine.ReachableUnder.invariant ?_ ?_ h)
  · rintro s ⟨wf, idle, settled, -, recoverable⟩
    have h_done : ∀ i, s.taskAt i = .done := by
      intro i
      rw [taskAt_eq, idle]
      rfl
    refine ⟨wf, ?_, ?_, ?_, ?_⟩
    · intro b hb h_status
      obtain ⟨c, hc, h_b, h_ready⟩ := recoverable b hb h_status
      exact ⟨c, hc, h_b, by simp [h_ready]⟩
    · exact fun c hc h_up => absurd h_up (settled c hc)
    · simp [h_done]
    · simp [h_done, Task.pending]
  · intro s e s' h_inv h_guard h_step
    exact h_inv.step h_guard h_step

/-- A backup whose local copy goes once its upload is through. -/
def moveToStorage : List Event :=
  [.create nightly "smp" .zip 0, .packSucceeds 0,
   .afterCreate 0 { autoUpload with deleteLocalAfterUpload := true } (some "kubek"),
   .objectPut 0, .uploadResolves 0, .afterUpload 0, .archiveGone 0, .removeResolves 0,
   .afterRemove 0 0, .afterWork 0 keepAll 0]

theorem recoverable_moveToStorage :
    ∃ s, machine.runUnder (fun s e => keepsLiveRow s e) {} moveToStorage = some s ∧
      s.copies.length = 1 ∧ RecoverableAtRest s :=
  ⟨(machine.runUnder (fun s e => keepsLiveRow s e) {} moveToStorage).get (by decide +kernel),
    (Option.some_get _).symm, by decide +kernel,
    recoverable_of_reachableUnder (machine.reachableUnder_of_runUnder moveToStorage
      (.init booted_empty) (Option.some_get _).symm)⟩

/-- An upload fails, and then the local copy is removed. -/
def failThenRemove : List Event :=
  [.create nightly "smp" .zip 0, .packSucceeds 0, .afterCreate 0 autoUpload (some "kubek"),
   .uploadFails 0, .afterWork 0 keepAll 0, .remove 0, .archiveGone 1, .removeResolves 1,
   .afterRemove 1 0]

/-- All work is over, and the failed row keeps a completed backup without a ready copy. -/
theorem failed_row_keeps_backup :
    ¬ ∀ s, machine.Reachable s → RecoverableAtRest s := by
  intro h
  have h_stranded : ¬ RecoverableAtRest ((machine.run {} failThenRemove).get (by decide +kernel)) := by
    decide +kernel
  exact h_stranded (h _ (machine.reachable_of_run failThenRemove (.init booted_empty)
    (Option.some_get _).symm))

end Kubek.Backups.Copies
