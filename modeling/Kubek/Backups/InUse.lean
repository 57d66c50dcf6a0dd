/-
  Kubek.Backups.InUse

  Copies that somebody reads, and backups that are pinned.

  A retention run asks for leases and pins once, when it makes its plan, and carries the
  plan out with an await between two removals; `remove` asks for neither, and the other
  callers of `remove` never asked. A copy that is leased, or a backup that is pinned, while
  the plan is carried out is removed all the same (`stale_plan_removes`). While every
  removal starts on a copy that is free, and no lease or pin comes while a removal is on
  its way, no step takes a copy that is leased and retention takes nothing of a backup that
  is pinned (`spares_of_reachableUnder`).
-/

import Kubek.Backups.CopySteps

namespace Kubek.Backups.Copies

open State KeyedRows Transition

/-! ## The property -/

/-- The `remove()` that the step takes the archive or the row for. -/
def State.takes (s : State) : Event → Option (RemoveCaller × StoredCopy)
  | .archiveGone i =>
      match s.taskAt i with
      | .removing caller copy false => some (caller, copy)
      | _ => none
  | .removeResolves i =>
      match s.taskAt i with
      | .removing caller copy true => some (caller, copy)
      | _ => none
  | _ => none

/-- The step removes no copy that is leased, retention removes no copy of a pinned backup,
    and the row of a leased copy goes with no other row. -/
structure Spares (s : State) (e : Event) (s' : State) : Prop where
  leased : ∀ caller copy, s.takes e = some (caller, copy) → s.isLeased copy.id = false
  pinned : ∀ run rest copy, s.takes e = some (.prune run rest, copy) →
    ∀ b ∈ s.backups, b.id = copy.backupId → b.pinned = false
  rows : ∀ c ∈ s.copies, s.isLeased c.id = true → ∃ r ∈ s'.copies, r.id = c.id

/-! ## Removals that start on free copies -/

/-- A `remove()` of the copy is on its way. -/
def State.underRemoval (s : State) (id : Nat) : Bool :=
  s.tasks.any fun t =>
    match t with
    | .removing _ copy _ => copy.id = id
    | _ => false

/-- Retention is removing a copy of the backup. -/
def State.underPrune (s : State) (id : Uuid) : Bool :=
  s.tasks.any fun t =>
    match t with
    | .removing (.prune _ _) copy _ => copy.backupId = id
    | _ => false

/-- `removeAll` goes on with a copy that is free, or ends with a backup whose rows are. -/
def State.freeToRemove (s : State) (id : Uuid) : List StoredCopy → Bool
  | copy :: _ => !s.isLeased copy.id
  | [] => (s.copiesOf id).all fun c => !s.isLeased c.id

/-- No removal starts on a copy that is leased, retention starts none of a backup that is
    pinned, and nothing is leased or pinned while a removal of it is on its way. -/
def respectsUse (s : State) (e : Event) : Bool :=
  match e with
  | .delete id => s.freeToRemove id (s.copiesOf id)
  | .remove copy => !s.isLeased copy
  | .afterUpload i =>
      match s.taskAt i with
      | .uploaded (.creator true) record =>
          (s.findAt record.id none).all fun c => !s.isLeased c.id
      | _ => true
  | .afterRemove i _ =>
      match s.taskAt i with
      | .removed (.removeAll id rest) => s.freeToRemove id rest
      | .removed (.prune _ (copy :: _)) =>
          -- what the plan asked for, asked again
          !s.isLeased copy.id && (s.findBackup copy.backupId).all fun b => !b.pinned
      | _ => true
  | .restore id =>
      ((s.localArchive id).or (s.readyRemote id)).all fun c => !s.underRemoval c.id
  | .upload _ _ _ | .afterCreate _ _ _ =>
      (s.startsUpload e).all fun p =>
        (s.localArchive p.1).all fun c => !s.underRemoval c.id
  | .setPinned id pinned => !pinned || !s.underPrune id
  | _ => true

section

variable {s s' : State}

theorem not_underRemoval {id : Nat} (h : s.underRemoval id = false) {i : Nat}
    {caller : RemoveCaller} {copy : StoredCopy} {gone : Bool}
    (h_at : s.taskAt i = .removing caller copy gone) : copy.id ≠ id := by
  intro h_id
  have h_mem : s.taskAt i ∈ s.tasks := taskAt_mem (by simp [h_at])
  have h_not := List.any_eq_false.mp h _ h_mem
  rw [h_at] at h_not
  exact h_not (by simpa using h_id)

theorem not_underPrune {id : Uuid} (h : s.underPrune id = false) {i : Nat} {run : PruneRun}
    {rest : List StoredCopy} {copy : StoredCopy} {gone : Bool}
    (h_at : s.taskAt i = .removing (.prune run rest) copy gone) : copy.backupId ≠ id := by
  intro h_id
  have h_mem : s.taskAt i ∈ s.tasks := taskAt_mem (by simp [h_at])
  have h_not := List.any_eq_false.mp h _ h_mem
  rw [h_at] at h_not
  exact h_not (by simpa using h_id)

theorem isLeased_iff {id : Nat} : s.isLeased id = true ↔ id ∈ s.leases := by
  simp [isLeased]

theorem isLeased_eq_false {id : Nat} : s.isLeased id = false ↔ id ∉ s.leases := by
  simp [isLeased]

/-! ## What a step does to leases, pins and removals -/

/-- The pins of `s'` were pins before. -/
def PinsFrom (s s' : State) : Prop :=
  ∀ b ∈ s'.backups, b.pinned = true → ∃ r ∈ s.backups, r.id = b.id ∧ r.pinned = true

theorem PinsFrom.of_same (backups : s'.backups = s.backups) : PinsFrom s s' :=
  fun b hb h_pinned => ⟨b, backups ▸ hb, rfl, h_pinned⟩

theorem PinsFrom.of_filter {p : BackupRecord → Bool} (backups : s'.backups = s.backups.filter p) :
    PinsFrom s s' :=
  fun b hb h_pinned => ⟨b, (List.mem_filter.mp (backups ▸ hb)).1, rfl, h_pinned⟩

theorem PinsFrom.of_setStatus {id : Uuid} {status : BackupStatus}
    (backups : s'.backups = modifyRow (·.id) id (fun b => { b with status }) s.backups) :
    PinsFrom s s' := by
  intro b hb h_pinned
  rw [backups, mem_modifyRow] at hb
  obtain ⟨r, hr, -, rfl⟩ | ⟨hb, -⟩ := hb
  · exact ⟨r, hr, rfl, h_pinned⟩
  · exact ⟨b, hb, rfl, h_pinned⟩

/-- The backup with this id, if there is one, is not pinned. -/
def Unpinned (s : State) (id : Uuid) : Prop :=
  ∀ b ∈ s.backups, b.id = id → b.pinned = false

/-- A ready row that is leased stays, unless it is the one that `old` has just removed the
    archive of. -/
def Kept (s : State) (old : Task) (s' : State) : Prop :=
  ∀ c ∈ s.copies, s.isLeased c.id = true → c.status = .ready →
    (∃ r ∈ s'.copies, r.id = c.id) ∨ ∃ caller copy, old = .removing caller copy true ∧ copy.id = c.id

theorem Kept.of_same {old : Task} (copies : s'.copies = s.copies) : Kept s old s' :=
  fun c hc _ _ => .inl ⟨c, copies ▸ hc, rfl⟩

theorem Kept.of_append {old : Task} {c : StoredCopy} (copies : s'.copies = s.copies ++ [c]) :
    Kept s old s' :=
  fun r hr _ _ => .inl ⟨r, copies ▸ List.mem_append_left _ hr, rfl⟩

theorem Kept.of_setStatus {old : Task} {id : Nat} {status : BackupCopyStatus}
    (copies : s'.copies = modifyRow (·.id) id (fun c => { c with status }) s.copies) :
    Kept s old s' := by
  intro c hc _ _
  rw [copies]
  by_cases h_id : c.id = id
  · exact .inl ⟨{ c with status }, mem_modifyRow.mpr (.inl ⟨c, hc, h_id, rfl⟩), rfl⟩
  · exact .inl ⟨c, mem_modifyRow.mpr (.inr ⟨hc, h_id⟩), rfl⟩

/-- Where a call leaves its work, which was `old` before. -/
inductive Turn (s : State) (old : Task) (r : State × Task) : Prop
  /-- No lease is taken and no removal starts. -/
  | goes (rows : Kept s old r.1) (leases : ∀ id ∈ r.1.leases, id ∈ s.leases)
      (pins : PinsFrom s r.1)
      (same : ∀ caller copy gone, r.2 = .removing caller copy gone →
        ∃ gone₀, old = .removing caller copy gone₀)
  /-- A removal starts on a copy that is free. -/
  | begins (caller : RemoveCaller) (copy : StoredCopy) (h_task : r.2 = .removing caller copy false)
      (rows : Kept s old r.1) (leases : r.1.leases = s.leases)
      (pins : PinsFrom s r.1) (free : s.isLeased copy.id = false)
      (unpinned : ∀ run rest, caller = .prune run rest → Unpinned s copy.backupId)
  /-- A ready copy that no removal is under way for is leased. -/
  | leases (c : StoredCopy) (hc : c ∈ s.copies) (ready : c.status = .ready)
      (free : s.underRemoval c.id = false) (rows : Kept s old r.1)
      (taken : r.1.leases = c.id :: s.leases) (pins : PinsFrom s r.1)
      (h_task : ∀ caller copy gone, r.2 ≠ .removing caller copy gone)

/-- A step as to leases, pins and removals: one task takes its turn, or a backup is pinned
    or unpinned. -/
inductive UseEffect (s : State) (e : Event) (s' : State) : Prop
  | turn (i : Nat) (r : State × Task) (h : Turn s (s.taskAt i) r)
      (tasks : s'.taskAt = Function.update s.taskAt i r.2) (leases : s'.leases = r.1.leases)
      (copies : s'.copies = r.1.copies) (backups : s'.backups = r.1.backups)
  | pin (id : Uuid) (pinned : Bool) (free : pinned = true → s.underPrune id = false)
      (tasks : s'.taskAt = s.taskAt) (leases : s'.leases = s.leases)
      (copies : s'.copies = s.copies)
      (backups : s'.backups = modifyRow (·.id) id (fun b => { b with pinned }) s.backups)

/-- Another task over the same tables and leases. -/
theorem Turn.of_task {old t : Task} (h : ∀ caller copy gone, t ≠ .removing caller copy gone) :
    Turn s old (s, t) :=
  .goes (.of_same rfl) (fun _ h_id => h_id) (.of_same rfl) fun caller copy gone h_t =>
    absurd h_t (h caller copy gone)

theorem UseEffect.of_push {e : Event} {r : State × Task} (h : Turn s .done r)
    (tasks : r.1.tasks = s.tasks) : UseEffect s e (push r) := by
  refine .turn s.tasks.length r ?_ (taskAt_push s tasks) rfl rfl rfl
  rwa [taskAt_length]

theorem UseEffect.of_resume {e : Event} {i : Nat} {r : State × Task} (h_at : s.taskAt i ≠ .done)
    (h : Turn s (s.taskAt i) r) (tasks : r.1.tasks = s.tasks) : UseEffect s e (resume i r) :=
  .turn i r h (taskAt_resume s h_at tasks) rfl rfl rfl

/-! ### Retention -/

/-- What a plan holds was free and of an unpinned backup. -/
theorem free_of_mem_plan (h_wf : WellFormed s) {serverId : ServerId}
    {location : Option StorageId} {limits : RetentionLimits} {now : Int} {c : StoredCopy}
    (h : c ∈ s.plan serverId location limits now) :
    s.isLeased c.id = false ∧ Unpinned s c.backupId := by
  obtain ⟨p, hp, rfl⟩ := List.mem_map.mp h
  have h_pinned := not_pinned_of_mem_planRetention _ hp
  obtain ⟨c, hc, h_eq⟩ := List.mem_filterMap.mp (mem_of_mem_planRetention _ hp)
  split at h_eq
  · rename_i h_candidate
    obtain ⟨b, h_b, rfl⟩ := Option.map_eq_some_iff.mp h_eq
    refine ⟨by simpa using h_candidate.2.2, ?_⟩
    intro b' hb' h_id
    have h_mem := (List.mem_filter.mp (List.mem_of_find?_eq_some h_b)).1
    have h_b_id : b.id = c.backupId := by simpa using List.find?_some h_b
    have h_same := h_wf.backupIds.eq_of_col hb' h_mem (h_id.trans h_b_id.symm)
    rw [h_same]
    exact h_pinned
  · cases h_eq

/-- A prune goes on over copies the first of which is free and not pinned. -/
theorem turn_prune (h_wf : WellFormed s) {old : Task} (run : PruneRun) (now : Int)
    {rest : List StoredCopy}
    (h_first : ∀ copy ∈ rest.head?, s.isLeased copy.id = false ∧ Unpinned s copy.backupId) :
    Turn s old (s.prune run now rest) := by
  cases rest with
  | cons copy rest =>
    obtain ⟨h_free, h_pin⟩ := h_first copy rfl
    exact .begins _ copy rfl (.of_same rfl) rfl (.of_same rfl) h_free fun _ _ _ => h_pin
  | nil =>
    have h_applied : Turn s old (s.applied run.serverId) :=
      .goes (.of_same rfl) (fun _ h_id => h_id) (.of_same rfl) (by simp [applied])
    simp only [prune]
    split
    · split
      · rename_i copy rest h_plan
        obtain ⟨h_free, h_pin⟩ := free_of_mem_plan h_wf (h_plan ▸ List.mem_cons_self)
        exact .begins _ copy rfl (.of_same rfl) rfl (.of_same rfl) h_free fun _ _ _ => h_pin
      · exact h_applied
    · exact h_applied

/-- The set of servers retention runs for is no part of what a turn is about. -/
theorem Turn.of_running (running : List ServerId) {old : Task} {r : State × Task}
    (h : Turn { s with running } old r) : Turn s old r := by
  cases h with
  | goes rows leases pins same => exact .goes rows leases pins same
  | begins caller copy h_task rows leases pins free unpinned =>
    exact .begins caller copy h_task rows leases pins free unpinned
  | leases c hc ready free rows taken pins h_task =>
    exact .leases c hc ready free rows taken pins h_task

/-- A retention run starts with what its own plan found free. -/
theorem turn_apply (h_wf : WellFormed s) {old : Task} (serverId : ServerId)
    (policy : BackupPolicy) (now : Int) : Turn s old (s.apply serverId policy now) := by
  have h_wf' : WellFormed { s with running := serverId :: s.running } := h_wf.of_tables rfl rfl rfl
  simp only [State.apply]
  split
  · exact .of_task (by simp)
  · apply Turn.of_running (serverId :: s.running)
    apply turn_prune h_wf'
    intro copy h_head
    exact free_of_mem_plan h_wf' (List.mem_of_mem_head? h_head)

/-! ### Removals and uploads -/

theorem removeThrew_ne (caller : RemoveCaller) (caller' : RemoveCaller) (copy : StoredCopy)
    (gone : Bool) : removeThrew caller ≠ .removing caller' copy gone := by
  cases caller <;> simp [removeThrew]

theorem uploadThrew_ne (caller : UploadCaller) (backup : BackupRecord) (caller' : RemoveCaller)
    (copy : StoredCopy) (gone : Bool) : uploadThrew caller backup ≠ .removing caller' copy gone := by
  cases caller <;> simp [uploadThrew]

/-- The loop of `removeAll` goes on with a copy that is free. -/
theorem turn_removeAll {old : Task} {id : Uuid} {rest : List StoredCopy}
    (h_free : s.freeToRemove id rest = true) : Turn s old (s.removeAll id rest) := by
  cases rest with
  | nil =>
    refine .goes ?_ (fun _ h_id => h_id) (.of_filter rfl) (by simp [removeAll])
    intro c hc h_leased _
    refine .inl ⟨c, List.mem_filter.mpr ⟨hc, decide_eq_true fun h_b => ?_⟩, rfl⟩
    have h_not := List.all_eq_true.mp h_free c (mem_copiesOf.mpr ⟨hc, h_b⟩)
    simp [h_leased] at h_not
  | cons copy rest =>
    have h_leased : s.isLeased copy.id = false := by simpa [freeToRemove] using h_free
    exact .begins _ copy rfl (.of_same rfl) rfl (.of_same rfl) h_leased fun _ _ h_caller => by cases h_caller

/-- An upload that gets past its checks leases the local archive. -/
theorem uploadCopy_started {record : BackupRecord} {storageId : StorageId}
    {folder : Option String} {s₁ : State} {up : Upload}
    (h : s.uploadCopy record storageId folder = .started s₁ up) :
    ∃ c, s.localArchive record.id = some c ∧ s₁.leases = c.id :: s.leases := by
  simp only [uploadCopy] at h
  split at h
  · rename_i localCopy h_local
    split at h
    · cases h
    · split at h
      · cases h
      · rename_i created h_created
        obtain ⟨-, -, rfl⟩ := createCopy_eq_some h_created
        cases h
        refine ⟨localCopy, h_local, ?_⟩
        cases s.findAt record.id (some storageId) <;> rfl
  · cases h

/-- An upload, started or not. -/
theorem turn_upload (h_wf : WellFormed s) (old : Task) (caller : UploadCaller)
    {record : BackupRecord} {storageId : StorageId} {folder : Option String}
    (h_free : ((s.startsCopy record storageId folder).all fun p =>
      (s.localArchive p.1).all fun c => !s.underRemoval c.id) = true) :
    Turn s old (s.upload caller record storageId folder) ∧
      (s.upload caller record storageId folder).1.tasks = s.tasks := by
  obtain h | h | ⟨s₁, up, h, h_started⟩ := uploadCopy_cases h_wf record storageId folder
  · rw [upload, h]
    exact ⟨.of_task (uploadThrew_ne caller record), rfl⟩
  · rw [upload, h]
    exact ⟨.of_task (by simp), rfl⟩
  · obtain ⟨c, h_local, h_leases⟩ := uploadCopy_started h
    obtain ⟨h_row, -, -, h_ready⟩ := localArchive_mem h_local
    have h_under : s.underRemoval c.id = false := by
      simpa [startsCopy, h, h_local] using h_free
    rw [upload, h]
    refine ⟨.leases c h_row h_ready h_under ?_ h_leases (.of_same h_started.backups) (by simp),
      h_started.tasks⟩
    -- the row that is replaced is not ready
    intro r hr _ h_status
    refine .inl ⟨r, ?_, rfl⟩
    rw [h_started.copies]
    refine List.mem_append_left _ (List.mem_filter.mpr ⟨hr, decide_eq_true ?_⟩)
    exact fun h_loc => h_started.replaced r hr h_loc.1 h_loc.2 h_status

theorem readyRemote_mem {id : Uuid} {c : StoredCopy} (h : s.readyRemote id = some c) :
    c ∈ s.copies ∧ c.status = .ready := by
  have h_found := List.find?_some h
  have h_mem := mem_copiesOf.mp (List.mem_of_find?_eq_some h)
  exact ⟨h_mem.1, by simpa using (Bool.and_eq_true_iff.mp h_found).2⟩

theorem archive_mem {id : Uuid} {c : StoredCopy}
    (h : (s.localArchive id).or (s.readyRemote id) = some c) :
    c ∈ s.copies ∧ c.status = .ready := by
  rw [Option.or_eq_some_iff] at h
  obtain h_local | ⟨-, h_remote⟩ := h
  · obtain ⟨h_row, -, -, h_ready⟩ := localArchive_mem h_local
    exact ⟨h_row, h_ready⟩
  · exact readyRemote_mem h_remote

/-! ### All steps -/

theorem release_leases (s : State) (copy : Nat) : ∀ id ∈ (s.release copy).leases, id ∈ s.leases :=
  fun _ h_id => List.mem_of_mem_erase h_id

theorem dropArchive_use (s : State) (copy : StoredCopy) :
    (s.dropArchive copy).leases = s.leases ∧ (s.dropArchive copy).backups = s.backups := by
  simp only [dropArchive]
  split <;> exact ⟨rfl, rfl⟩

theorem removeRow_leases (s : State) (copy : StoredCopy) :
    (s.removeRow copy).leases = s.leases := by
  simp only [removeRow]
  split <;> rfl

theorem findBackup_of_mem (h_wf : WellFormed s) {b : BackupRecord} (hb : b ∈ s.backups) :
    s.findBackup b.id = some b := by
  cases h_found : s.findBackup b.id with
  | none => exact absurd (by simp) (List.find?_eq_none.mp h_found b hb)
  | some b' =>
    obtain ⟨h_mem, h_id⟩ := findBackup_mem h_found
    rw [h_wf.backupIds.eq_of_col h_mem hb h_id]

/-- **Inversion of `step`**, as to leases, pins and removals. -/
theorem use_effect {e : Event} (h_wf : WellFormed s) (h_use : respectsUse s e = true)
    (h : step s e = some s') : UseEffect s e s' := by
  cases e with
  | create id serverId format createdAt =>
    simp only [step] at h
    split at h
    · cases h
    · cases h
      refine .of_push (.goes (.of_same rfl) (fun _ h_id => h_id) ?_ (by simp)) rfl
      intro b hb h_pinned
      obtain hb | hb := List.mem_append.mp hb
      · exact ⟨b, hb, rfl, h_pinned⟩
      · rw [List.mem_singleton.mp hb] at h_pinned
        cases h_pinned
  | packSucceeds i =>
    simp only [step] at h
    split at h
    · rename_i record h_at
      cases h
      have h_ne : s.taskAt i ≠ .done := by simp [h_at]
      simp only [packSucceeded]
      split
      · rename_i s₁ h_created
        obtain ⟨-, -, rfl⟩ := createCopy_eq_some h_created
        exact .of_resume h_ne (.goes (.of_append rfl) (fun _ h_id => h_id) (.of_setStatus rfl)
          (by simp)) rfl
      · exact .of_resume h_ne (.goes (.of_same rfl) (fun _ h_id => h_id) (.of_setStatus rfl)
          (by simp [packFailed])) rfl
    · cases h
  | packFails i =>
    simp only [step] at h
    split at h
    · rename_i record h_at
      cases h
      exact .of_resume (by simp [h_at])
        (.goes (.of_same rfl) (fun _ h_id => h_id) (.of_setStatus rfl) (by simp [packFailed])) rfl
    · cases h
  | afterCreate i policy folder =>
    simp only [step] at h
    split at h
    · rename_i record h_at
      cases h
      have h_ne : s.taskAt i ≠ .done := by simp [h_at]
      simp only [afterCreate]
      split
      · rename_i storageId h_storage h_auto
        have h_free := h_use
        simp only [respectsUse, startsUpload, h_at, h_storage] at h_free
        obtain ⟨h_turn, h_tasks⟩ := turn_upload h_wf (s.taskAt i)
          (.creator policy.deleteLocalAfterUpload) h_free
        exact .of_resume h_ne h_turn h_tasks
      · exact .of_resume h_ne (.of_task (by simp)) rfl
    · cases h
  | upload id storageId folder =>
    simp only [step] at h
    split at h
    · rename_i record h_found
      split at h
      · cases h
        have h_free := h_use
        simp only [respectsUse, startsUpload, h_found, Option.bind_some] at h_free
        obtain ⟨h_turn, h_tasks⟩ := turn_upload h_wf .done .service h_free
        exact .of_push h_turn h_tasks
      · cases h
    · cases h
  | objectPut i =>
    simp only [step] at h
    split at h
    · rename_i caller up h_at
      cases h
      exact .of_resume (by simp [h_at])
        (.goes (.of_same rfl) (fun _ h_id => h_id) (.of_same rfl) (by simp)) rfl
    · cases h
  | uploadResolves i =>
    simp only [step] at h
    split at h
    · rename_i caller up h_at
      cases h
      have h_ne : s.taskAt i ≠ .done := by simp [h_at]
      simp only [uploadResolved]
      split
      · exact .of_resume h_ne (.of_task (by simp)) rfl
      · exact .of_resume h_ne
          (.goes (.of_setStatus rfl) (release_leases _ _) (.of_same rfl) (by simp)) rfl
    · cases h
  | uploadFails i =>
    simp only [step] at h
    split at h
    · rename_i caller up phase h_at
      cases h
      refine .of_resume (by simp [h_at]) (.goes (.of_setStatus rfl) (release_leases _ _)
        (.of_same rfl) ?_) rfl
      intro caller' copy gone h_t
      exact absurd h_t (uploadThrew_ne caller up.backup caller' copy gone)
    · cases h
  | afterUpload i =>
    simp only [step] at h
    split at h
    · rename_i record h_at
      cases h
      have h_ne : s.taskAt i ≠ .done := by simp [h_at]
      simp only [respectsUse, h_at] at h_use
      simp only [dropLocal]
      split
      · rename_i copy h_found
        rw [h_found] at h_use
        exact .of_resume h_ne (.begins _ copy rfl (.of_same rfl) rfl (.of_same rfl) (by simpa using h_use)
          (fun _ _ h_caller => by cases h_caller)) rfl
      · exact .of_resume h_ne (.of_task (by simp)) rfl
    · rename_i caller record h_at
      cases h
      exact .of_resume (by simp [h_at]) (.of_task (by simp)) rfl
    · cases h
  | delete id =>
    simp only [step] at h
    split at h
    · split at h
      · cases h
      · cases h
        refine .of_push (turn_removeAll (by simpa [respectsUse] using h_use)) ?_
        cases s.copiesOf id <;> rfl
    · cases h
  | remove copy =>
    simp only [step] at h
    split at h
    · rename_i copy h_found
      cases h
      obtain ⟨-, rfl⟩ := findCopy_mem h_found
      exact .of_push (.begins _ copy rfl (.of_same rfl) rfl (.of_same rfl) (by simpa [respectsUse] using h_use)
        (fun _ _ h_caller => by cases h_caller)) rfl
    · cases h
  | archiveGone i =>
    simp only [step] at h
    split at h
    · rename_i caller copy h_at
      cases h
      obtain ⟨h_leases, h_backups⟩ := dropArchive_use s copy
      obtain ⟨h_copies, -, -, h_tasks⟩ := dropArchive_rest s copy
      refine .of_resume (by simp [h_at])
        (.goes (.of_same h_copies) (by simp [h_leases]) (.of_same h_backups) ?_) h_tasks
      intro caller' copy' gone h_t
      cases h_t
      exact ⟨false, h_at⟩
    · rename_i caller up h_at
      cases h
      exact .of_resume (by simp [h_at])
        (.goes (.of_same rfl) (fun _ h_id => h_id) (.of_same rfl) (by simp)) rfl
    · cases h
  | removeResolves i =>
    simp only [step] at h
    split at h
    · rename_i caller copy h_at
      cases h
      obtain ⟨h_copies, -, -, h_tasks, h_backups, -⟩ := removeRow_spec s copy
      refine .of_resume (by simp [h_at]) (.goes ?_ ?_ ?_ (by simp)) h_tasks
      · intro c hc _ _
        by_cases h_id : c.id = copy.id
        · exact .inr ⟨caller, copy, h_at, h_id.symm⟩
        · exact .inl ⟨c, h_copies ▸ List.mem_filter.mpr ⟨hc, decide_eq_true h_id⟩, rfl⟩
      · rw [removeRow_leases]
        exact fun _ h_id => h_id
      · intro b hb h_pinned
        exact ⟨b, ((h_backups b).mp hb).1, rfl, h_pinned⟩
    · cases h
  | removeRejects i =>
    simp only [step] at h
    split at h
    · rename_i caller copy h_at
      cases h
      exact .of_resume (by simp [h_at]) (.of_task (removeThrew_ne caller)) rfl
    · cases h
  | afterRemove i now =>
    simp only [step] at h
    split at h
    · rename_i h_at
      cases h
      exact .of_resume (by simp [h_at]) (.of_task (by simp)) rfl
    · rename_i record h_at
      cases h
      exact .of_resume (by simp [h_at]) (.of_task (by simp)) rfl
    · rename_i id rest h_at
      cases h
      simp only [respectsUse, h_at] at h_use
      refine .of_resume (by simp [h_at]) (turn_removeAll h_use) ?_
      cases rest <;> rfl
    · rename_i run rest h_at
      cases h
      have h_goes : Goes s rest (s.prune run now rest) := goes_prune run now fun c hc => .inl hc
      refine .of_resume (by simp [h_at]) (turn_prune h_wf run now ?_) h_goes.tasks
      intro copy h_head
      obtain ⟨rest', rfl⟩ : ∃ rest', rest = copy :: rest' := by
        cases rest with
        | nil => cases h_head
        | cons first rest' =>
          cases h_head
          exact ⟨rest', rfl⟩
      simp only [respectsUse, h_at, Bool.and_eq_true] at h_use
      refine ⟨by simpa using h_use.1, ?_⟩
      intro b hb h_id
      have h_found := findBackup_of_mem h_wf hb
      rw [h_id] at h_found
      simpa [h_found] using h_use.2
    · cases h
  | applyRetention serverId policy now =>
    simp only [step, Option.some.injEq] at h
    subst h
    exact .of_push (turn_apply h_wf serverId policy now) (goes_apply serverId policy now []).tasks
  | afterWork i policy now =>
    simp only [step] at h
    split at h
    · rename_i serverId h_at
      cases h
      exact .of_resume (by simp [h_at]) (turn_apply h_wf serverId policy now)
        (goes_apply serverId policy now []).tasks
    · cases h
  | setPinned id pinned =>
    simp only [step] at h
    split at h
    · cases h
    · cases h
      refine .pin id pinned ?_ rfl rfl rfl rfl
      rintro rfl
      simpa [respectsUse] using h_use
  | restore id =>
    simp only [step] at h
    split at h
    · split at h
      · obtain ⟨copy, h_copy, rfl⟩ := Option.map_eq_some_iff.mp h
        obtain ⟨h_row, h_ready⟩ := archive_mem h_copy
        have h_free : s.underRemoval copy.id = false := by
          simpa [respectsUse, h_copy] using h_use
        exact .of_push
          (.leases copy h_row h_ready h_free (.of_same rfl) rfl (.of_same rfl) (by simp)) rfl
      · cases h
    · cases h
  | restoreEnds i =>
    simp only [step] at h
    split at h
    · rename_i copy h_at
      cases h
      exact .of_resume (by simp [h_at])
        (.goes (.of_same rfl) (release_leases _ _) (.of_same rfl) (by simp)) rfl
    · cases h

/-! ## What is on its way is free -/

/-- A copy that is being removed is not leased, and retention removes none of a pinned
    backup. -/
structure Unread (s : State) : Prop where
  free : ∀ i caller copy gone, s.taskAt i = .removing caller copy gone →
    s.isLeased copy.id = false
  unpinned : ∀ i run rest copy gone, s.taskAt i = .removing (.prune run rest) copy gone →
    Unpinned s copy.backupId

theorem Unpinned.of_pins {id : Uuid} (h : Unpinned s id) (pins : PinsFrom s s') :
    Unpinned s' id := by
  intro b hb h_id
  cases h_pinned : b.pinned with
  | false => rfl
  | true =>
    obtain ⟨r, hr, h_r, h_r_pinned⟩ := pins b hb h_pinned
    rw [h r hr (h_r.trans h_id)] at h_r_pinned
    cases h_r_pinned

theorem isLeased_of_subset {id : Nat} (h : s.isLeased id = false)
    (leases : ∀ id ∈ s'.leases, id ∈ s.leases) : s'.isLeased id = false := by
  rw [isLeased_eq_false] at h ⊢
  exact fun h_id => h (leases id h_id)

namespace Unread

/-- One step. -/
theorem step {e : Event} (h : Unread s) (h_effect : UseEffect s e s') : Unread s' := by
  cases h_effect with
  | turn i r h_turn tasks leases _ backups =>
    have h_unpinned : ∀ {id : Uuid}, PinsFrom s r.1 → Unpinned s id → Unpinned s' id :=
      fun pins h_id => h_id.of_pins (by rw [PinsFrom, backups]; exact pins)
    cases h_turn with
    | goes _ subset pins same =>
      have h_subset : ∀ id ∈ s'.leases, id ∈ s.leases := leases ▸ subset
      -- whatever is being removed was being removed
      have h_old : ∀ j caller copy gone, s'.taskAt j = .removing caller copy gone →
          ∃ gone₀, s.taskAt j = .removing caller copy gone₀ := by
        intro j caller copy gone hj
        obtain ⟨rfl, h_t⟩ | ⟨-, h_at⟩ := Suspended.update_cases tasks hj
        · exact same caller copy gone h_t
        · exact ⟨gone, h_at⟩
      refine ⟨?_, ?_⟩
      · intro j caller copy gone hj
        obtain ⟨gone₀, h_at⟩ := h_old j caller copy gone hj
        exact isLeased_of_subset (h.free j caller copy gone₀ h_at) h_subset
      · intro j run rest copy gone hj
        obtain ⟨gone₀, h_at⟩ := h_old j (.prune run rest) copy gone hj
        exact h_unpinned pins (h.unpinned j run rest copy gone₀ h_at)
    | begins caller copy h_task _ same_leases pins free unpinned =>
      have h_subset : ∀ id ∈ s'.leases, id ∈ s.leases := by
        rw [leases, same_leases]
        exact fun _ h_id => h_id
      refine ⟨?_, ?_⟩
      · intro j caller' copy' gone hj
        obtain ⟨rfl, h_t⟩ | ⟨-, h_at⟩ := Suspended.update_cases tasks hj
        · rw [h_task] at h_t
          cases h_t
          exact isLeased_of_subset free h_subset
        · exact isLeased_of_subset (h.free j caller' copy' gone h_at) h_subset
      · intro j run rest copy' gone hj
        obtain ⟨rfl, h_t⟩ | ⟨-, h_at⟩ := Suspended.update_cases tasks hj
        · rw [h_task] at h_t
          cases h_t
          exact h_unpinned pins (unpinned run rest rfl)
        · exact h_unpinned pins (h.unpinned j run rest copy' gone h_at)
    | leases c hc _ free _ taken pins h_task =>
      refine ⟨?_, ?_⟩
      · intro j caller copy gone hj
        obtain ⟨rfl, h_t⟩ | ⟨-, h_at⟩ := Suspended.update_cases tasks hj
        · exact absurd h_t (h_task caller copy gone)
        · -- the lease is on another copy
          have h_ne := not_underRemoval free h_at
          have h_old := isLeased_eq_false.mp (h.free j caller copy gone h_at)
          rw [isLeased_eq_false, leases, taken, List.mem_cons]
          exact not_or.mpr ⟨h_ne, h_old⟩
      · intro j run rest copy gone hj
        obtain ⟨rfl, h_t⟩ | ⟨-, h_at⟩ := Suspended.update_cases tasks hj
        · exact absurd h_t (h_task _ copy gone)
        · exact h_unpinned pins (h.unpinned j run rest copy gone h_at)
  | pin id pinned free tasks leases _ backups =>
    refine ⟨?_, ?_⟩
    · intro j caller copy gone hj
      rw [tasks] at hj
      rw [isLeased, leases]
      exact h.free j caller copy gone hj
    · intro j run rest copy gone hj b hb h_id
      rw [tasks] at hj
      have h_old := h.unpinned j run rest copy gone hj
      rw [backups, mem_modifyRow] at hb
      obtain ⟨r, hr, h_r, rfl⟩ | ⟨hb, -⟩ := hb
      · cases pinned with
        | false => rfl
        | true => exact absurd (h_id.symm.trans h_r) (not_underPrune (free rfl) hj)
      · exact h_old b hb h_id

end Unread

/-! ## What is leased is ready -/

/-- Rows that are leased are ready, and the row of an upload is not. -/
structure LeasedReady (s : State) : Prop where
  wf : WellFormed s
  ready : ∀ c ∈ s.copies, s.isLeased c.id = true → c.status = .ready
  known : ∀ id ∈ s.leases, id < s.nextCopy
  sending : ∀ i caller up phase, s.taskAt i = .uploading caller up phase →
    up.copy < s.nextCopy ∧ ∀ c ∈ s.copies, c.id = up.copy → c.status ≠ .ready
  single : ∀ i j caller caller' up up' phase phase', s.taskAt i = .uploading caller up phase →
    s.taskAt j = .uploading caller' up' phase' → up.copy = up'.copy → i = j

/-- A lease was there before, or it is on a ready row. -/
theorem leases_from {e : Event} (h_effect : UseEffect s e s') :
    ∀ id ∈ s'.leases, id ∈ s.leases ∨ ∃ c ∈ s.copies, c.id = id ∧ c.status = .ready := by
  intro id h_id
  cases h_effect with
  | turn i r h_turn tasks leases _ backups =>
    rw [leases] at h_id
    cases h_turn with
    | goes _ subset pins same => exact .inl (subset id h_id)
    | begins caller copy h_task _ same_leases pins free unpinned => exact .inl (same_leases ▸ h_id)
    | leases c hc ready free _ taken pins h_task =>
      rw [taken, List.mem_cons] at h_id
      obtain rfl | h_id := h_id
      · exact .inr ⟨c, hc, rfl, ready⟩
      · exact .inl h_id
  | pin id' pinned free tasks leases _ backups => exact .inl (leases ▸ h_id)

namespace LeasedReady

/-- A row that was ready stays so, a row that becomes ready is of no upload, and the task
    that goes on is at most the upload it was before or one of a new row. -/
theorem carry (h : LeasedReady s) {i : Nat} {t : Task} (wf : WellFormed s')
    (leases : ∀ id ∈ s'.leases, id ∈ s.leases ∨ ∃ c ∈ s.copies, c.id = id ∧ c.status = .ready)
    (rows : ∀ c ∈ s'.copies, (∃ c₀ ∈ s.copies, c₀.id = c.id ∧
      (c₀.status = .ready → c.status = .ready)) ∨ c.id = s.nextCopy)
    (back : ∀ c ∈ s'.copies, c.status = .ready →
      (∃ c₀ ∈ s.copies, c₀.id = c.id ∧ c₀.status = .ready) ∨
      ∀ j caller up phase, s'.taskAt j = .uploading caller up phase → up.copy ≠ c.id)
    (nextCopy : s.nextCopy ≤ s'.nextCopy)
    (tasks : s'.taskAt = Function.update s.taskAt i t)
    (upload : ∀ caller up phase, t = .uploading caller up phase →
      (∃ phase₀, s.taskAt i = .uploading caller up phase₀) ∨
      up.copy = s.nextCopy ∧ s.nextCopy < s'.nextCopy) : LeasedReady s' := by
  have h_up : ∀ j caller up phase, s'.taskAt j = .uploading caller up phase →
      (∃ phase₀, s.taskAt j = .uploading caller up phase₀) ∨
      j = i ∧ up.copy = s.nextCopy ∧ s.nextCopy < s'.nextCopy := by
    intro j caller up phase hj
    obtain ⟨rfl, h_t⟩ | ⟨-, h_old⟩ := Suspended.update_cases tasks hj
    · exact (upload caller up phase h_t).imp_right fun h_new => ⟨rfl, h_new⟩
    · exact .inl ⟨phase, h_old⟩
  have h_known : ∀ id ∈ s'.leases, id < s.nextCopy := by
    intro id h_id
    obtain h_old | ⟨c, hc, rfl, -⟩ := leases id h_id
    · exact h.known id h_old
    · exact h.wf.fresh c hc
  refine ⟨wf, ?_, ?_, ?_, ?_⟩
  · intro c hc h_leased
    have h_id := isLeased_iff.mp h_leased
    obtain ⟨c₀, h_c₀, h_same, h_ready⟩ | h_new := rows c hc
    · apply h_ready
      obtain h_old | ⟨r, hr, h_r, h_r_ready⟩ := leases c.id h_id
      · exact h.ready c₀ h_c₀ (isLeased_iff.mpr (h_same ▸ h_old))
      · rwa [h.wf.copyIds.eq_of_col h_c₀ hr (h_same.trans h_r.symm)]
    · have h_lt := h_known c.id h_id
      omega
  · intro id h_id
    have h_lt := h_known id h_id
    omega
  · intro j caller up phase hj
    refine ⟨?_, ?_⟩
    · obtain ⟨phase₀, h_old⟩ | ⟨-, h_copy, h_lt⟩ := h_up j caller up phase hj
      · have h_lt := (h.sending j caller up phase₀ h_old).1
        omega
      · omega
    · intro c hc h_id h_ready
      obtain ⟨c₀, h_c₀, h_same, h_c₀_ready⟩ | h_none := back c hc h_ready
      · obtain ⟨phase₀, h_old⟩ | ⟨-, h_copy, -⟩ := h_up j caller up phase hj
        · exact (h.sending j caller up phase₀ h_old).2 c₀ h_c₀ (h_same.trans h_id) h_c₀_ready
        · have h_lt := h.wf.fresh c₀ h_c₀
          omega
      · exact h_none j caller up phase hj h_id.symm
  · intro j k caller caller' up up' phase phase' hj hk h_copy
    obtain ⟨phase₀, h_j⟩ | ⟨h_j, h_j_copy, -⟩ := h_up j caller up phase hj
    · obtain ⟨phase₁, h_k⟩ | ⟨-, h_k_copy, -⟩ := h_up k caller' up' phase' hk
      · exact h.single j k caller caller' up up' phase₀ phase₁ h_j h_k h_copy
      · have h_lt := (h.sending j caller up phase₀ h_j).1
        omega
    · obtain ⟨phase₁, h_k⟩ | ⟨h_k, -⟩ := h_up k caller' up' phase' hk
      · have h_lt := (h.sending k caller' up' phase₁ h_k).1
        omega
      · exact h_j.trans h_k.symm

/-- The same, for a step that leaves every row as it is or takes it away. -/
theorem carry_fewer (h : LeasedReady s) {i : Nat} {t : Task} (wf : WellFormed s')
    (leases : ∀ id ∈ s'.leases, id ∈ s.leases ∨ ∃ c ∈ s.copies, c.id = id ∧ c.status = .ready)
    (rows : ∀ c ∈ s'.copies, c ∈ s.copies) (nextCopy : s'.nextCopy = s.nextCopy)
    (tasks : s'.taskAt = Function.update s.taskAt i t)
    (upload : ∀ caller up phase, t = .uploading caller up phase →
      ∃ phase₀, s.taskAt i = .uploading caller up phase₀) : LeasedReady s' :=
  h.carry wf leases (fun c hc => .inl ⟨c, rows c hc, rfl, fun h_ready => h_ready⟩)
    (fun c hc h_ready => .inl ⟨c, rows c hc, rfl, h_ready⟩) (by rw [nextCopy]) tasks
    fun caller up phase h_t => .inl (upload caller up phase h_t)

/-- A task that is no upload. -/
theorem no_upload {i : Nat} {t : Task} (h : t.plain = true) :
    ∀ caller up phase, t = .uploading caller up phase →
      ∃ phase₀, s.taskAt i = .uploading caller up phase₀ := by
  rintro caller up phase rfl
  cases h

/-- One step. -/
theorem step {e : Event} (h : LeasedReady s) (h_effect : UseEffect s e s')
    (h_step : Copies.step s e = some s') : LeasedReady s' := by
  have wf := h.wf.step h_step
  have leases := leases_from h_effect
  cases step_effect h.wf h_step with
  | aside i t _ h_new tasks keeps _ =>
    exact h.carry_fewer wf leases (fun c hc => keeps.copies ▸ hc) keeps.nextCopy tasks
      (no_upload h_new)
  | archived i record _ tasks _ _ copies nextCopy _ _ =>
    have h_rows : ∀ c ∈ s'.copies, c ∈ s.copies ∨ c.id = s.nextCopy := by
      intro c hc
      rw [copies, List.mem_append, List.mem_singleton] at hc
      exact hc.imp_right fun h_c => by rw [h_c]
    refine h.carry wf leases ?_ ?_ (by omega) tasks (fun _ _ _ h_t => by cases h_t)
    · intro c hc
      exact (h_rows c hc).imp_left fun h_old => ⟨c, h_old, rfl, fun h_ready => h_ready⟩
    · intro c hc h_ready
      refine (h_rows c hc).imp (fun h_old => ⟨c, h_old, rfl, h_ready⟩) ?_
      -- uploads are of rows there were before
      intro h_new j caller up phase hj
      obtain ⟨rfl, h_t⟩ | ⟨-, h_at⟩ := Suspended.update_cases tasks hj
      · cases h_t
      · have h_lt := (h.sending j caller up phase h_at).1
        omega
  | starts i caller up folder _ tasks _ h_copy _ _ _ copies nextCopy _ _ =>
    have h_rows : ∀ c ∈ s'.copies, c ∈ s.copies ∨ c = up.row := by
      intro c hc
      rw [copies, List.mem_append, List.mem_singleton] at hc
      exact hc.imp_left fun h_old => (List.mem_filter.mp h_old).1
    refine h.carry wf leases ?_ ?_ (by omega) tasks ?_
    · intro c hc
      refine (h_rows c hc).imp (fun h_old => ⟨c, h_old, rfl, fun h_ready => h_ready⟩) ?_
      rintro rfl
      exact h_copy
    · intro c hc h_ready
      obtain h_old | rfl := h_rows c hc
      · exact .inl ⟨c, h_old, rfl, h_ready⟩
      · cases h_ready
    · intro caller' up' phase h_t
      cases h_t
      exact .inr ⟨h_copy, by omega⟩
  | put i caller up h_at tasks _ copies nextCopy _ =>
    refine h.carry_fewer wf leases (fun c hc => copies ▸ hc) nextCopy tasks ?_
    intro caller' up' phase h_t
    cases h_t
    exact ⟨.sending, h_at⟩
  | ready i caller up h_at tasks copies nextCopy _ _ =>
    refine h.carry wf leases ?_ ?_ (by rw [nextCopy]) tasks (fun _ _ _ h_t => by cases h_t)
    · intro c hc
      rw [copies, mem_modifyRow] at hc
      obtain ⟨r, hr, -, rfl⟩ | ⟨hc, -⟩ := hc
      · exact .inl ⟨r, hr, rfl, fun _ => rfl⟩
      · exact .inl ⟨c, hc, rfl, fun h_ready => h_ready⟩
    · intro c hc h_ready
      rw [copies, mem_modifyRow] at hc
      obtain ⟨r, hr, h_id, rfl⟩ | ⟨hc, -⟩ := hc
      · -- the upload of this row is over, and it was the only one
        refine .inr fun j caller' up' phase hj h_copy => ?_
        obtain ⟨rfl, h_t⟩ | ⟨h_ne, h_old⟩ := Suspended.update_cases tasks hj
        · cases h_t
        · exact h_ne (h.single j i caller' caller up' up phase .sent h_old h_at
            (h_copy.trans h_id))
      · exact .inl ⟨c, hc, rfl, h_ready⟩
  | cleans i caller up h_at _ tasks keeps =>
    refine h.carry_fewer wf leases (fun c hc => keeps.copies ▸ hc) keeps.nextCopy tasks ?_
    intro caller' up' phase h_t
    cases h_t
    exact ⟨.sent, h_at⟩
  | cleaned i caller up h_at tasks _ copies nextCopy _ =>
    refine h.carry_fewer wf leases (fun c hc => copies ▸ hc) nextCopy tasks ?_
    intro caller' up' phase h_t
    cases h_t
    exact ⟨.cleaning, h_at⟩
  | fails i caller up phase _ h_at tasks copies nextCopy _ _ =>
    have h_plain := (plain_uploadThrew caller up.backup).1
    refine h.carry wf leases ?_ ?_ (by rw [nextCopy]) tasks
      (fun caller' up' phase' h_t => .inl (no_upload h_plain caller' up' phase' h_t))
    · intro c hc
      rw [copies, mem_modifyRow] at hc
      obtain ⟨r, hr, h_id, rfl⟩ | ⟨hc, -⟩ := hc
      · exact .inl ⟨r, hr, rfl, fun h_ready =>
          absurd h_ready ((h.sending i caller up phase h_at).2 r hr h_id)⟩
      · exact .inl ⟨c, hc, rfl, fun h_ready => h_ready⟩
    · intro c hc h_ready
      rw [copies, mem_modifyRow] at hc
      obtain ⟨r, hr, h_id, rfl⟩ | ⟨hc, -⟩ := hc
      · cases h_ready
      · exact .inl ⟨c, hc, rfl, h_ready⟩
  | archiveGone i caller copy _ tasks _ copies nextCopy _ =>
    exact h.carry_fewer wf leases (fun c hc => copies ▸ hc) nextCopy tasks
      (fun _ _ _ h_t => by cases h_t)
  | rowGone i caller copy _ _ tasks copies nextCopy _ _ _ =>
    refine h.carry_fewer wf leases (fun c hc => ?_) nextCopy tasks (fun _ _ _ h_t => by cases h_t)
    rw [copies] at hc
    exact (List.mem_filter.mp hc).1
  | backupGone i id _ tasks copies _ nextCopy _ =>
    refine h.carry_fewer wf leases (fun c hc => ?_) nextCopy tasks (fun _ _ _ h_t => by cases h_t)
    rw [copies] at hc
    exact (List.mem_filter.mp hc).1

end LeasedReady

/-! ## Every run -/

theorem takes_eq_some {e : Event} {caller : RemoveCaller} {copy : StoredCopy}
    (h : s.takes e = some (caller, copy)) :
    ∃ i gone, s.taskAt i = .removing caller copy gone := by
  cases e with
  | archiveGone i =>
    simp only [takes] at h
    split at h
    · rename_i h_at
      cases h
      exact ⟨i, false, h_at⟩
    · cases h
  | removeResolves i =>
    simp only [takes] at h
    split at h
    · rename_i h_at
      cases h
      exact ⟨i, true, h_at⟩
    · cases h
  | _ => cases h

/-- What both invariants say of a step. -/
theorem spares_of_invariants {e : Event} (h : Unread s) (h_ready : LeasedReady s)
    (h_effect : UseEffect s e s') : Spares s e s' where
  leased caller copy h_takes := by
    obtain ⟨i, gone, h_at⟩ := takes_eq_some h_takes
    exact h.free i caller copy gone h_at
  pinned run rest copy h_takes := by
    obtain ⟨i, gone, h_at⟩ := takes_eq_some h_takes
    exact h.unpinned i run rest copy gone h_at
  rows c hc h_leased := by
    cases h_effect with
    | pin id pinned _ _ _ copies _ => exact ⟨c, copies ▸ hc, rfl⟩
    | turn i r h_turn _ _ copies _ =>
      have h_kept : Kept s (s.taskAt i) r.1 := by
        cases h_turn with
        | goes rows _ _ _ => exact rows
        | begins _ _ _ rows _ _ _ _ => exact rows
        | leases _ _ _ _ rows _ _ _ => exact rows
      rw [copies]
      obtain h_stays | ⟨caller, copy, h_at, h_id⟩ := h_kept c hc h_leased (h_ready.ready c hc h_leased)
      · exact h_stays
      · have h_free := h.free i caller copy true h_at
        rw [h_id, h_leased] at h_free
        cases h_free

/-- A panel that has just booted: leases are kept in memory, so there are none. -/
def bootedMachine : Machine State Event where
  init s := Booted s ∧ s.leases = []
  step := step

/-- **Leased copies and pinned backups are left alone.** In every run in which every removal
    starts on a copy that is free, retention starts none of a pinned backup, and nothing is
    leased or pinned while a removal of it is on its way, no step removes a leased copy and
    retention removes no copy of a pinned backup. -/
theorem spares_of_reachableUnder {s s' : State} {e : Event}
    (h : bootedMachine.ReachableUnder (fun s e => respectsUse s e = true) s)
    (h_use : respectsUse s e = true) (h_step : step s e = some s') : Spares s e s' := by
  have h_inv : Unread s ∧ LeasedReady s := by
    refine Machine.ReachableUnder.invariant (P := fun s => Unread s ∧ LeasedReady s) ?_ ?_ h
    · rintro s ⟨⟨wf, idle, -, -, -⟩, h_leases⟩
      have h_done : ∀ i, s.taskAt i = .done := by
        intro i
        rw [taskAt_eq, idle]
        rfl
      exact ⟨⟨by simp [h_done], by simp [h_done]⟩,
        ⟨wf, by simp [isLeased, h_leases], by simp [h_leases], by simp [h_done], by simp [h_done]⟩⟩
    · rintro s e s' ⟨h_unread, h_ready⟩ h_guard h_next
      have h_effect := use_effect h_ready.wf h_guard h_next
      exact ⟨h_unread.step h_effect, h_ready.step h_effect h_next⟩
  exact spares_of_invariants h_inv.1 h_inv.2 (use_effect h_inv.2.wf h_use h_step)

end

/-! ### Runs -/

def evening : Uuid := ⟨"evening", by simp⟩

def morning : Uuid := ⟨"morning", by simp⟩

/-- Room for one archive on the disk. -/
def keepNewest : BackupPolicy := { keepAll with disk := ⟨some 1, none⟩ }

/-- The backup `id` is created by the task `i`. -/
def createBackup (i : Nat) (id : Uuid) (createdAt : Int) : List Event :=
  [.create id "smp" .zip createdAt, .packSucceeds i, .afterCreate i keepAll none,
   .afterWork i keepAll createdAt]

def createThree : List Event :=
  createBackup 0 nightly 0 ++ createBackup 1 evening 1 ++ createBackup 2 morning 2

/-- Retention makes room while the newest backup is restored. -/
def pruneOldest : List Event :=
  createThree ++ [.restore morning, .applyRetention "smp" keepNewest 3]

theorem spares_pruneOldest :
    ∃ s s', bootedMachine.runUnder (fun s e => respectsUse s e) {} pruneOldest = some s ∧
      step s (.archiveGone 4) = some s' ∧ (s.takes (.archiveGone 4)).isSome = true ∧
      Spares s (.archiveGone 4) s' :=
  let s := (bootedMachine.runUnder (fun s e => respectsUse s e) {} pruneOldest).get
    (by decide +kernel)
  let s' := (step s (.archiveGone 4)).get (by decide +kernel)
  ⟨s, s', (Option.some_get _).symm, (Option.some_get _).symm, by decide +kernel,
    spares_of_reachableUnder (bootedMachine.reachableUnder_of_runUnder pruneOldest
      (.init ⟨booted_empty, rfl⟩) (Option.some_get _).symm) (by decide +kernel)
      (Option.some_get _).symm⟩

/-- Two archives have to go. While the first one does, the second is leased and its backup
    is pinned. -/
def stalePlan : List Event :=
  createThree ++
    [.applyRetention "smp" keepNewest 3, .restore nightly, .setPinned nightly true,
     .archiveGone 3, .removeResolves 3, .afterRemove 3 3]

/-- The plan is carried out to its end: the archive goes under the restore that reads it,
    and it is the one of a backup that is pinned by then. -/
theorem stale_plan_removes :
    ∃ s s' run rest copy, bootedMachine.Reachable s ∧ step s (.archiveGone 3) = some s' ∧
      s.takes (.archiveGone 3) = some (.prune run rest, copy) ∧ s.isLeased copy.id = true ∧
      (∃ b ∈ s.backups, b.id = copy.backupId ∧ b.pinned = true) ∧
      ¬ Spares s (.archiveGone 3) s' := by
  let s := (bootedMachine.run {} stalePlan).get (by decide +kernel)
  let s' := (step s (.archiveGone 3)).get (by decide +kernel)
  have h_takes : s.takes (.archiveGone 3) = some (.prune ⟨"smp", keepNewest, none⟩ [],
      ⟨0, nightly, none, "smp/nightly.zip", .ready⟩) := by
    decide +kernel
  have h_leased : s.isLeased 0 = true := by decide +kernel
  have h_reach : bootedMachine.Reachable s :=
    bootedMachine.reachable_of_run stalePlan (.init ⟨booted_empty, rfl⟩) (Option.some_get _).symm
  refine ⟨s, s', _, _, _, h_reach, (Option.some_get _).symm, h_takes, h_leased,
    by decide +kernel, ?_⟩
  intro h
  have h_free := h.leased _ _ h_takes
  rw [h_leased] at h_free
  cases h_free

end Kubek.Backups.Copies
