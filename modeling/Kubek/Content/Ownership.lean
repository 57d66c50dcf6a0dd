/-
  Kubek.Content.Ownership

  Which records and files of managed content a task has to itself.

  A task works on the records it was given or has listed (`claims`), writes the two names of
  its download (`names`), and may make a record for one project (`creates`). While no two
  tasks have any of these in common, whatever is half done between two awaits belongs to one
  task: a record without its file (`dropped`) or a file without its record (`leftovers`).
  `Inv` says so, `Changes` says what a turn of one task may change, and `Changes.fits` that
  this leaves the other tasks as they were.
-/

import Kubek.Content.Installer

namespace Kubek.Content

open KeyedRows

/-! ## The property -/

/-- The file of the record is there, with bytes that were verified for its version. -/
def Store.Intact (s : Store) (r : ContentRecord) : Prop :=
  ∃ file, s.folder r.fileName = some file ∧ (r.versionId, file.bytes) ∈ s.verified

/-- Records and files agree. -/
structure Store.InSync (s : Store) : Prop where
  intact : ∀ r ∈ s.records, s.Intact r
  names : UniqueCol (·.fileName) s.records
  placed : ∀ name file, s.folder name = some file → file.placed = true →
    ∃ r ∈ s.records, r.fileName = name

def State.quiet (s : State) : Bool := s.tasks.all (· = .done)

/-! ## What a task works on -/

namespace Task

def stackClaims (stack : List Frame) : List RecordId :=
  stack.flatMap fun frame => frame.id :: frame.pending.map (·.id)

/-- The records that the task installs, updates or removes. -/
def claims : Task → List RecordId
  | .requested existing => existing.toList.map (·.id)
  | .installing _ job => job.existing.toList.map (·.id)
  | .removalRequested record _ => [record.id]
  | .unlinking _ _ record stack | .unlinked _ _ record stack => record.id :: stackClaims stack
  | .returned _ stack => stackClaims stack
  | .resolving _ _ | .done => []

/-- The files that an install writes. -/
def names : Task → List String
  | .installing _ job => [job.temp, job.file.filename]
  | _ => []

/-- The project that an install makes a record of. -/
def creates : Task → Option String
  | .installing _ job => if job.existing.isNone then some job.version.projectId else none
  | _ => none

end Task

/-- The tasks in flight but `i`. -/
def State.others (s : State) (i : Nat) : List Task :=
  ((List.range s.tasks.length).filter (· ≠ i)).map s.taskAt

/-- No task but `i` works on the record. -/
def State.isFree (s : State) (i : Nat) (id : RecordId) : Bool :=
  (s.others i).all fun t => id ∉ t.claims

/-- What the task goes on with when Modrinth answers. -/
def State.begun (s : State) (i : Nat) (version : ModrinthVersion)
    (dependencies : List Dependency) (now : Nat) : Task :=
  match s.taskAt i with
  | .requested existing => s.store.beginInstall existing version none dependencies now
  | .resolving main (_ :: rest) => s.store.beginInstall none version (some main) rest now
  | _ => .done

/-- Neither the record, nor the names, nor the project of the install are those of another
    task or record. -/
def State.hasRoomFor (s : State) (i : Nat) (job : Job) : Bool :=
  let t := Task.installing .preparing job
  t.claims.all (s.isFree i) &&
    (s.others i).all (fun u => t.names.all (· ∉ u.names) &&
      (t.creates.isNone || t.creates ≠ u.creates)) &&
    s.store.records.all (fun r => r.fileName ≠ job.temp &&
      (r.fileName ≠ job.file.filename || r.id ∈ t.claims)) &&
    job.temp ≠ job.file.filename

/-! ## The invariant -/

/-- What only the task of a record changes. -/
def ContentRecord.core (r : ContentRecord) : ContentRecord := { r with dependencyOf := none }

namespace Store

/-- The snapshot of a record is current. -/
def Tracked (s : Store) (r : ContentRecord) : Prop := ∃ r' ∈ s.records, r'.core = r.core

/-- The record, where it still is, has no file. -/
def Gone (s : Store) (id : RecordId) : Prop :=
  ∀ r ∈ s.records, r.id = id → s.folder r.fileName = none

/-- A file with bytes verified for the version. -/
def Holds (s : Store) (name versionId : String) : Prop :=
  ∃ file, s.folder name = some file ∧ (versionId, file.bytes) ∈ s.verified

end Store

/-- What there is of an install at its await. -/
structure Job.Fits (s : Store) (phase : InstallPhase) (job : Job) : Prop where
  existing : ∀ e ∈ job.existing, s.Tracked e
  project : job.existing = none → ∀ r ∈ s.records, r.projectId ≠ job.version.projectId
  target : ∀ r ∈ s.records, r.fileName = job.file.filename → some r.id = job.existing.map (·.id)
  temp : ∀ r ∈ s.records, r.fileName ≠ job.temp
  apart : job.temp ≠ job.file.filename
  safe : isSafeFileName job.file.filename = true
  fetched : phase = .droppingOld ∨ phase = .droppingTarget ∨ phase = .moving →
    s.Holds job.temp job.version.id
  renamed : phase = .persisting → s.Holds job.file.filename job.version.id
  dropped : phase = .droppingTarget ∨ phase = .moving →
    ∀ e ∈ job.existing, s.folder e.fileName = none
  replaced : phase = .persisting →
    ∀ e ∈ job.existing, e.fileName ≠ job.file.filename → s.folder e.fileName = none

/-- What there is of the records whose removal waits for that of their dependants. -/
structure StackFits (s : Store) (visited : List RecordId) (stack : List Frame) : Prop where
  gone : ∀ frame ∈ stack, s.Gone frame.id
  seen : ∀ frame ∈ stack, frame.id ∈ visited
  pending : ∀ frame ∈ stack, ∀ d ∈ frame.pending, d.id ∈ visited ∨ s.Tracked d

namespace Task

def Fits (s : Store) : Task → Prop
  | .requested existing => ∀ e ∈ existing, s.Tracked e
  | .installing phase job => job.Fits s phase
  | .removalRequested record _ => s.Tracked record
  | .unlinking _ visited record stack =>
      s.Tracked record ∧ record.id ∈ visited ∧ StackFits s visited stack
  | .unlinked _ visited record stack =>
      s.Gone record.id ∧ record.id ∈ visited ∧ StackFits s visited stack
  | .returned visited stack => StackFits s visited stack
  | .resolving _ _ | .done => True

/-- The records without their file for now. -/
def dropped : Task → List RecordId
  | .installing phase job =>
      if phase = .droppingTarget ∨ phase = .moving ∨ phase = .persisting then
        job.existing.toList.map (·.id)
      else []
  | .unlinking _ _ _ stack | .returned _ stack => stack.map (·.id)
  | .unlinked _ _ record stack => record.id :: stack.map (·.id)
  | _ => []

/-- The files that have no record yet. -/
def leftovers : Task → List String
  | .installing phase job =>
      if phase = .droppingOld ∨ phase = .droppingTarget ∨ phase = .moving then [job.temp]
      else if phase = .persisting then [job.file.filename]
      else []
  | _ => []

/-- Two tasks have nothing in common. -/
structure Apart (t u : Task) : Prop where
  claims : ∀ id ∈ t.claims, id ∉ u.claims
  names : ∀ n ∈ t.names, n ∉ u.names
  creates : ∀ p, t.creates = some p → u.creates ≠ some p

end Task

/-- The keys of the table, and names that can be removed. -/
structure Store.Keyed (s : Store) : Prop where
  ids : UniqueCol (·.id) s.records
  projects : UniqueCol (·.projectId) s.records
  names : UniqueCol (·.fileName) s.records
  fresh : ∀ r ∈ s.records, r.id < s.nextId
  safe : ∀ r ∈ s.records, isSafeFileName r.fileName = true

structure Inv (s : State) : Prop where
  keyed : s.store.Keyed
  apart : ∀ i j, i ≠ j → (s.taskAt i).Apart (s.taskAt j)
  fits : ∀ i, (s.taskAt i).Fits s.store
  old : ∀ i, ∀ id ∈ (s.taskAt i).claims, id < s.store.nextId
  intact : ∀ r ∈ s.store.records, s.store.Intact r ∨ ∃ i, r.id ∈ (s.taskAt i).dropped
  placed : ∀ name file, s.store.folder name = some file → file.placed = true →
    (∃ r ∈ s.store.records, r.fileName = name) ∨ ∃ i, name ∈ (s.taskAt i).leftovers

section

variable {s s' : State} {a b : Store} {t u : Task}

theorem Task.Apart.symm (h : t.Apart u) : u.Apart t where
  claims id h_u h_t := h.claims id h_t h_u
  names n h_u h_t := h.names n h_t h_u
  creates p h_u h_t := h.creates p h_t h_u

theorem mem_stackClaims {stack : List Frame} {id : RecordId} :
    id ∈ Task.stackClaims stack ↔
      ∃ frame ∈ stack, id = frame.id ∨ ∃ d ∈ frame.pending, d.id = id := by
  simp [Task.stackClaims, eq_comm]

/-- The files that are missing are those of the records the task works on. -/
theorem dropped_subset_claims {id : RecordId} (h : id ∈ t.dropped) : id ∈ t.claims := by
  have h_stack : ∀ stack : List Frame, id ∈ stack.map (·.id) → id ∈ Task.stackClaims stack := by
    intro stack h_mem
    obtain ⟨frame, h_frame, rfl⟩ := List.mem_map.mp h_mem
    exact mem_stackClaims.mpr ⟨frame, h_frame, .inl rfl⟩
  cases t with
  | installing phase job =>
    simp only [Task.dropped] at h
    split at h
    · exact h
    · exact absurd h (by simp)
  | unlinking cascade visited record stack => exact List.mem_cons_of_mem _ (h_stack stack h)
  | returned visited stack => exact h_stack stack h
  | unlinked cascade visited record stack =>
    rcases List.mem_cons.mp h with rfl | h_rest
    · exact List.mem_cons_self
    · exact List.mem_cons_of_mem _ (h_stack stack h_rest)
  | requested | resolving | removalRequested | done => exact absurd h (by simp [Task.dropped])

/-! ## What a turn leaves alone -/

/-- What a turn of the task `t` may change: the records it works on, one new record, and
    the files of both. -/
structure Changes (a b : Store) (t : Task) : Prop where
  kept : ∀ r ∈ a.records, r.id ∉ t.claims → b.Tracked r
  origin : ∀ r' ∈ b.records, (∃ r ∈ a.records, r.core = r'.core) ∨
    r'.fileName ∈ t.names ∧
      ((r'.id ∈ t.claims ∧ ∃ r ∈ a.records, r.projectId = r'.projectId) ∨
        (r'.id = a.nextId ∧ t.creates = some r'.projectId))
  folder : ∀ n, n ∉ t.names → (∀ r ∈ a.records, r.id ∈ t.claims → r.fileName ≠ n) →
    b.folder n = a.folder n
  verified : ∀ v ∈ a.verified, v ∈ b.verified
  nextId : a.nextId ≤ b.nextId

theorem Changes.refl (a : Store) (t : Task) : Changes a a t where
  kept r h_r _ := ⟨r, h_r, rfl⟩
  origin r' h_r' := .inl ⟨r', h_r', rfl⟩
  folder _ _ _ := rfl
  verified _ h_v := h_v
  nextId := Nat.le_refl _

theorem id_of_core {r r' : ContentRecord} (h : r.core = r'.core) : r.id = r'.id := by
  show r.core.id = r'.core.id
  rw [h]

theorem fileName_of_core {r r' : ContentRecord} (h : r.core = r'.core) :
    r.fileName = r'.fileName := by
  show r.core.fileName = r'.core.fileName
  rw [h]

theorem projectId_of_core {r r' : ContentRecord} (h : r.core = r'.core) :
    r.projectId = r'.projectId := by
  show r.core.projectId = r'.core.projectId
  rw [h]

theorem versionId_of_core {r r' : ContentRecord} (h : r.core = r'.core) :
    r.versionId = r'.versionId := by
  show r.core.versionId = r'.core.versionId
  rw [h]

/-- A record whose file a task writes is one that it works on. -/
theorem mem_claims_of_name (h_fits : t.Fits a) {r : ContentRecord} (h_r : r ∈ a.records)
    (h_name : r.fileName ∈ t.names) : r.id ∈ t.claims := by
  cases t with
  | installing phase job =>
    have h_job : job.Fits a phase := h_fits
    rcases List.mem_cons.mp h_name with h_temp | h_target
    · exact absurd h_temp (h_job.temp r h_r)
    · have h_id := h_job.target r h_r (List.mem_singleton.mp h_target)
      obtain ⟨e, h_e, h_eq⟩ := Option.map_eq_some_iff.mp h_id.symm
      exact List.mem_map.mpr ⟨e, by simp [h_e], h_eq⟩
  | requested | resolving | removalRequested | unlinking | unlinked | returned | done =>
    exact absurd h_name (by simp [Task.names])

/-- The file of a record that the task does not work on stays as it is. -/
theorem Changes.spares (h : Changes a b t) (h_keyed : a.Keyed) (h_fits : t.Fits a)
    {r : ContentRecord} (h_r : r ∈ a.records) (h_id : r.id ∉ t.claims) :
    b.folder r.fileName = a.folder r.fileName := by
  refine h.folder r.fileName (fun h_name => h_id (mem_claims_of_name h_fits h_r h_name)) ?_
  intro r' h_r' h_claim h_name
  have h_eq := h_keyed.names.eq_of_col h_r' h_r h_name
  exact h_id (h_eq ▸ h_claim)

/-- What holds of another task still does after the turn. -/
theorem Changes.fits (h : Changes a b t) (h_keyed : a.Keyed) (h_t : t.Fits a)
    (h_apart : t.Apart u) (h_old : ∀ id ∈ u.claims, id < a.nextId) (h_u : u.Fits a) :
    u.Fits b := by
  have h_other : ∀ id ∈ u.claims, id ∉ t.claims := h_apart.symm.claims
  have h_tracked : ∀ r : ContentRecord, r.id ∈ u.claims → a.Tracked r → b.Tracked r := by
    rintro r h_claim ⟨r', h_r', h_core⟩
    have h_not : r'.id ∉ t.claims := h_other r'.id (id_of_core h_core ▸ h_claim)
    obtain ⟨r'', h_r'', h_core'⟩ := h.kept r' h_r' h_not
    exact ⟨r'', h_r'', h_core'.trans h_core⟩
  have h_missing : ∀ r ∈ a.records, r.id ∈ u.claims → a.folder r.fileName = none →
      b.folder r.fileName = none := by
    intro r h_r h_claim h_none
    exact (h.spares h_keyed h_t h_r (h_other r.id h_claim)).trans h_none
  have h_gone : ∀ id ∈ u.claims, a.Gone id → b.Gone id := by
    intro id h_claim h_gone r' h_r' h_id
    rcases h.origin r' h_r' with ⟨r, h_r, h_core⟩ | ⟨-, ⟨h_own, -⟩ | ⟨h_next, -⟩⟩
    · have h_eq : r.id = id := (id_of_core h_core).trans h_id
      rw [← fileName_of_core h_core]
      exact h_missing r h_r (h_eq ▸ h_claim) (h_gone r h_r h_eq)
    · exact absurd (h_id ▸ h_own) (h_other id h_claim)
    · have h_lt := h_old id h_claim
      rw [← h_id, h_next] at h_lt
      exact absurd h_lt (Nat.lt_irrefl _)
  have h_stack : ∀ visited stack, (∀ id ∈ Task.stackClaims stack, id ∈ u.claims) →
      StackFits a visited stack → StackFits b visited stack := by
    intro visited stack h_sub h_fits
    refine ⟨fun frame h_frame => ?_, h_fits.seen, fun frame h_frame d h_d => ?_⟩
    · exact h_gone _ (h_sub _ (mem_stackClaims.mpr ⟨frame, h_frame, .inl rfl⟩))
        (h_fits.gone frame h_frame)
    · have h_claim := h_sub d.id (mem_stackClaims.mpr ⟨frame, h_frame, .inr ⟨d, h_d, rfl⟩⟩)
      exact (h_fits.pending frame h_frame d h_d).imp_right (h_tracked d h_claim)
  cases u with
  | requested existing =>
    intro e h_e
    exact h_tracked e (List.mem_map.mpr ⟨e, by simpa using h_e, rfl⟩) (h_u e h_e)
  | installing phase job =>
    have h_job : job.Fits a phase := h_u
    have h_claim : ∀ e ∈ job.existing, e.id ∈ (Task.installing phase job).claims := fun e h_e =>
      List.mem_map.mpr ⟨e, by simpa using h_e, rfl⟩
    have h_temp : job.temp ∉ t.names := fun h_mem =>
      h_apart.names _ h_mem List.mem_cons_self
    have h_target : job.file.filename ∉ t.names := fun h_mem =>
      h_apart.names _ h_mem (List.mem_cons_of_mem _ List.mem_cons_self)
    have h_holds : ∀ n ver, n ∉ t.names → (∀ r ∈ a.records, r.id ∈ t.claims → r.fileName ≠ n) →
        a.Holds n ver → b.Holds n ver := by
      rintro n ver h_n h_records ⟨file, h_file, h_ver⟩
      exact ⟨file, (h.folder n h_n h_records).trans h_file, h.verified _ h_ver⟩
    have h_none : ∀ e ∈ job.existing, a.folder e.fileName = none → b.folder e.fileName = none := by
      intro e h_e h_file
      obtain ⟨r, h_r, h_core⟩ := h_job.existing e h_e
      rw [← fileName_of_core h_core] at h_file ⊢
      exact h_missing r h_r (id_of_core h_core ▸ h_claim e h_e) h_file
    have h_targetFree : ∀ r ∈ a.records, r.id ∈ t.claims → r.fileName ≠ job.file.filename := by
      intro r h_r h_own h_name
      obtain ⟨e, h_e, h_id⟩ := Option.map_eq_some_iff.mp (h_job.target r h_r h_name).symm
      exact h_other e.id (h_claim e h_e) (h_id ▸ h_own)
    show job.Fits b phase
    exact {
      existing := fun e h_e => h_tracked e (h_claim e h_e) (h_job.existing e h_e)
      project := by
        intro h_new r' h_r' h_project
        have h_creates : (Task.installing phase job).creates = some job.version.projectId := by
          simp [Task.creates, h_new]
        rcases h.origin r' h_r' with ⟨r, h_r, h_core⟩ | ⟨-, ⟨-, r, h_r, h_same⟩ | ⟨-, h_made⟩⟩
        · exact h_job.project h_new r h_r ((projectId_of_core h_core).trans h_project)
        · exact h_job.project h_new r h_r (h_same.trans h_project)
        · exact h_apart.creates _ h_made (h_project ▸ h_creates)
      target := by
        intro r' h_r' h_name
        rcases h.origin r' h_r' with ⟨r, h_r, h_core⟩ | ⟨h_written, -⟩
        · rw [← id_of_core h_core]
          exact h_job.target r h_r ((fileName_of_core h_core).trans h_name)
        · exact absurd (h_name ▸ h_written) h_target
      temp := by
        intro r' h_r' h_name
        rcases h.origin r' h_r' with ⟨r, h_r, h_core⟩ | ⟨h_written, -⟩
        · exact h_job.temp r h_r ((fileName_of_core h_core).trans h_name)
        · exact absurd (h_name ▸ h_written) h_temp
      apart := h_job.apart
      safe := h_job.safe
      fetched := fun h_phase =>
        h_holds _ _ h_temp (fun r h_r _ => h_job.temp r h_r) (h_job.fetched h_phase)
      renamed := fun h_phase => h_holds _ _ h_target h_targetFree (h_job.renamed h_phase)
      dropped := fun h_phase e h_e => h_none e h_e (h_job.dropped h_phase e h_e)
      replaced := fun h_phase e h_e h_ne => h_none e h_e (h_job.replaced h_phase e h_e h_ne) }
  | removalRequested record cascade => exact h_tracked record (by simp [Task.claims]) h_u
  | unlinking cascade visited record stack =>
    obtain ⟨h_record, h_mem, h_fits⟩ := h_u
    exact ⟨h_tracked record List.mem_cons_self h_record, h_mem,
      h_stack visited stack (fun id h_id => List.mem_cons_of_mem _ h_id) h_fits⟩
  | unlinked cascade visited record stack =>
    obtain ⟨h_record, h_mem, h_fits⟩ := h_u
    exact ⟨h_gone record.id List.mem_cons_self h_record, h_mem,
      h_stack visited stack (fun id h_id => List.mem_cons_of_mem _ h_id) h_fits⟩
  | returned visited stack => exact h_stack visited stack (fun id h_id => h_id) h_u
  | resolving | done => trivial

/-! ## Turns -/

/-- What the task `i` does until its next await. -/
structure Turn (s : State) (i : Nat) (p : Store × Task) : Prop where
  keyed : p.1.Keyed
  changes : Changes s.store p.1 (s.taskAt i)
  apart : ∀ j, j ≠ i → p.2.Apart (s.taskAt j)
  fits : p.2.Fits p.1
  old : ∀ id ∈ p.2.claims, id < p.1.nextId
  intact : ∀ r ∈ p.1.records, r.id ∈ (s.taskAt i).claims ∨ r.id = s.store.nextId →
    p.1.Intact r ∨ r.id ∈ p.2.dropped
  placed : ∀ name file, p.1.folder name = some file → file.placed = true →
    (∃ r ∈ p.1.records, r.fileName = name) ∨ name ∈ p.2.leftovers ∨
      ∃ j, j ≠ i ∧ name ∈ (s.taskAt j).leftovers

/-- One turn of one task keeps the invariant. -/
theorem Inv.turn {i : Nat} {p : Store × Task} (hs : Inv s) (h : Turn s i p)
    (h_store : s'.store = p.1) (h_task : s'.taskAt = Function.update s.taskAt i p.2) :
    Inv s' := by
  have h_at : s'.taskAt i = p.2 := by rw [h_task, Function.update_self]
  have h_else : ∀ j, j ≠ i → s'.taskAt j = s.taskAt j := fun j h_j => by
    rw [h_task, Function.update_of_ne h_j]
  have h_apart : ∀ j, j ≠ i → (s.taskAt i).Apart (s.taskAt j) := fun j h_j =>
    hs.apart i j h_j.symm
  refine ⟨h_store ▸ h.keyed, fun j k h_jk => ?_, fun j => ?_, fun j id h_id => ?_,
    fun r h_r => ?_, fun name file h_file h_placed => ?_⟩
  · by_cases h_j : j = i
    · have h_k : k ≠ i := fun h_k => h_jk (h_j.trans h_k.symm)
      rw [h_j, h_at, h_else k h_k]
      exact h.apart k h_k
    · by_cases h_k : k = i
      · rw [h_k, h_at, h_else j h_j]
        exact (h.apart j h_j).symm
      · rw [h_else j h_j, h_else k h_k]
        exact hs.apart j k h_jk
  · rw [h_store]
    by_cases h_j : j = i
    · rw [h_j, h_at]
      exact h.fits
    · rw [h_else j h_j]
      exact h.changes.fits hs.keyed (hs.fits i) (h_apart j h_j) (hs.old j) (hs.fits j)
  · rw [h_store]
    by_cases h_j : j = i
    · rw [h_j, h_at] at h_id
      exact h.old id h_id
    · rw [h_else j h_j] at h_id
      exact Nat.lt_of_lt_of_le (hs.old j id h_id) h.changes.nextId
  · rw [h_store] at h_r ⊢
    by_cases h_own : r.id ∈ (s.taskAt i).claims ∨ r.id = s.store.nextId
    · exact (h.intact r h_r h_own).imp_right fun h_drop => ⟨i, h_at ▸ h_drop⟩
    · obtain ⟨h_claim, h_next⟩ := not_or.mp h_own
      rcases h.changes.origin r h_r with ⟨r₀, h_r₀, h_core⟩ | ⟨-, ⟨h_mem, -⟩ | ⟨h_new, -⟩⟩
      · have h_id := id_of_core h_core
        have h_claim₀ : r₀.id ∉ (s.taskAt i).claims := h_id ▸ h_claim
        rcases hs.intact r₀ h_r₀ with ⟨file, h_file, h_ver⟩ | ⟨j, h_drop⟩
        · have h_same := h.changes.spares hs.keyed (hs.fits i) h_r₀ h_claim₀
          rw [fileName_of_core h_core] at h_same h_file
          rw [versionId_of_core h_core] at h_ver
          exact .inl ⟨file, h_same.trans h_file, h.changes.verified _ h_ver⟩
        · have h_j : j ≠ i := fun h_j => h_claim₀ (h_j ▸ dropped_subset_claims h_drop)
          exact .inr ⟨j, by rw [h_else j h_j, ← h_id]; exact h_drop⟩
      · exact absurd h_mem h_claim
      · exact absurd h_new h_next
  · rw [h_store] at h_file ⊢
    rcases h.placed name file h_file h_placed with h_record | h_left | ⟨j, h_j, h_left⟩
    · exact .inl h_record
    · exact .inr ⟨i, h_at ▸ h_left⟩
    · exact .inr ⟨j, by rw [h_else j h_j]; exact h_left⟩

/-- The records of a task are intact, or it has dropped their files itself. -/
theorem Inv.intact_own {i : Nat} (hs : Inv s) {r : ContentRecord} (h_r : r ∈ s.store.records)
    (h_claim : r.id ∈ (s.taskAt i).claims) :
    s.store.Intact r ∨ r.id ∈ (s.taskAt i).dropped := by
  rcases hs.intact r h_r with h_intact | ⟨j, h_drop⟩
  · exact .inl h_intact
  · by_cases h_j : j = i
    · exact .inr (h_j ▸ h_drop)
    · exact absurd (dropped_subset_claims h_drop) ((hs.apart j i h_j).symm.claims _ h_claim)

/-- No row has the next id yet. -/
theorem Inv.claim_of_touched {i : Nat} (hs : Inv s) {r : ContentRecord}
    (h_r : r ∈ s.store.records)
    (h : r.id ∈ (s.taskAt i).claims ∨ r.id = s.store.nextId) : r.id ∈ (s.taskAt i).claims := by
  rcases h with h_claim | h_next
  · exact h_claim
  · have h_lt := hs.keyed.fresh r h_r
    rw [h_next] at h_lt
    exact absurd h_lt (Nat.lt_irrefl _)

theorem Inv.placed_cases {i : Nat} (hs : Inv s) {name : String} {file : ContentFile}
    (h_file : s.store.folder name = some file) (h_placed : file.placed = true) :
    (∃ r ∈ s.store.records, r.fileName = name) ∨ name ∈ (s.taskAt i).leftovers ∨
      ∃ j, j ≠ i ∧ name ∈ (s.taskAt j).leftovers := by
  rcases hs.placed name file h_file h_placed with h_record | ⟨j, h_left⟩
  · exact .inl h_record
  · by_cases h_j : j = i
    · exact .inr (.inl (h_j ▸ h_left))
    · exact .inr (.inr ⟨j, h_j, h_left⟩)

theorem Task.Apart.mono {t' : Task} (h : t.Apart u) (h_claims : ∀ id ∈ t'.claims, id ∈ t.claims)
    (h_names : ∀ n ∈ t'.names, n ∈ t.names)
    (h_creates : ∀ p, t'.creates = some p → t.creates = some p) : t'.Apart u where
  claims id h_id := h.claims id (h_claims id h_id)
  names n h_n := h.names n (h_names n h_n)
  creates p h_p := h.creates p (h_creates p h_p)

/-- A turn that leaves table and folder alone. -/
theorem turn_same {i : Nat} {t' : Task} (hs : Inv s)
    (h_apart : ∀ j, j ≠ i → t'.Apart (s.taskAt j)) (h_fits : t'.Fits s.store)
    (h_old : ∀ id ∈ t'.claims, id < s.store.nextId)
    (h_dropped : ∀ id ∈ (s.taskAt i).dropped, id ∈ t'.dropped)
    (h_leftovers : ∀ n ∈ (s.taskAt i).leftovers, n ∈ t'.leftovers) :
    Turn s i (s.store, t') where
  keyed := hs.keyed
  changes := .refl s.store _
  apart := h_apart
  fits := h_fits
  old := h_old
  intact r h_r h_own := by
    have h_claim := hs.claim_of_touched h_r h_own
    exact (hs.intact_own h_r h_claim).imp_right (h_dropped r.id)
  placed name file h_file h_placed := by
    rcases hs.placed_cases h_file h_placed with h_record | h_left | h_other
    · exact .inl h_record
    · exact .inr (.inl (h_leftovers name h_left))
    · exact .inr (.inr h_other)

/-- A task ends, or throws, while everything is in place. -/
theorem turn_ends {i : Nat} {t' : Task} (hs : Inv s)
    (h_new : t'.claims = [] ∧ t'.names = [] ∧ t'.creates = none) (h_fits : t'.Fits s.store)
    (h_dropped : (s.taskAt i).dropped = []) (h_leftovers : (s.taskAt i).leftovers = []) :
    Turn s i (s.store, t') := by
  obtain ⟨h_claims, h_names, h_creates⟩ := h_new
  refine turn_same hs (fun j _ => ⟨?_, ?_, ?_⟩) h_fits ?_ ?_ ?_
  · simp [h_claims]
  · simp [h_names]
  · simp [h_creates]
  · simp [h_claims]
  · simp [h_dropped]
  · simp [h_leftovers]

/-- A file goes that the task may take: its own, or that of a record it works on. -/
theorem turn_unlink {i : Nat} {t' : Task} {name : String} (hs : Inv s)
    (h_claims : ∀ id ∈ t'.claims, id ∈ (s.taskAt i).claims)
    (h_names : ∀ n ∈ t'.names, n ∈ (s.taskAt i).names)
    (h_creates : ∀ p, t'.creates = some p → (s.taskAt i).creates = some p)
    (h_own : name ∈ (s.taskAt i).names ∨
      ∃ r ∈ s.store.records, r.id ∈ (s.taskAt i).claims ∧ r.fileName = name)
    (h_fits : t'.Fits (s.store.unlink name))
    (h_dropped : ∀ id ∈ (s.taskAt i).dropped, id ∈ t'.dropped)
    (h_gone : ∀ r ∈ s.store.records, r.fileName = name → r.id ∈ t'.dropped)
    (h_leftovers : ∀ n ∈ (s.taskAt i).leftovers, n ≠ name → n ∈ t'.leftovers) :
    Turn s i (s.store.unlink name, t') := by
  have h_kept : ∀ n, n ≠ name → (s.store.unlink name).folder n = s.store.folder n := fun n h_n =>
    Function.update_of_ne h_n _ _
  have h_name : (s.store.unlink name).folder name = none := Function.update_self _ _ _
  exact {
    keyed := ⟨hs.keyed.ids, hs.keyed.projects, hs.keyed.names, hs.keyed.fresh, hs.keyed.safe⟩
    changes := by
      refine ⟨fun r h_r _ => ⟨r, h_r, rfl⟩, fun r h_r => .inl ⟨r, h_r, rfl⟩,
        fun n h_n h_records => h_kept n fun h_eq => ?_, fun _ h_v => h_v, Nat.le_refl _⟩
      rcases h_own with h_mem | ⟨r, h_r, h_claim, h_r_name⟩
      · exact h_n (h_eq ▸ h_mem)
      · exact h_records r h_r h_claim (h_r_name.trans h_eq.symm)
    apart := fun j h_j => (hs.apart i j h_j.symm).mono h_claims h_names h_creates
    fits := h_fits
    old := fun id h_id => hs.old i id (h_claims id h_id)
    intact := by
      intro r h_r h_touched
      by_cases h_eq : r.fileName = name
      · exact .inr (h_gone r h_r h_eq)
      · have h_claim := hs.claim_of_touched h_r h_touched
        rcases hs.intact_own h_r h_claim with ⟨file, h_file, h_ver⟩ | h_drop
        · exact .inl ⟨file, (h_kept _ h_eq).trans h_file, h_ver⟩
        · exact .inr (h_dropped r.id h_drop)
    placed := by
      intro n file h_file h_placed
      have h_n : n ≠ name := by
        rintro rfl
        exact absurd (h_name.symm.trans h_file) (by simp)
      rcases hs.placed_cases ((h_kept n h_n).symm.trans h_file) h_placed with
        h_record | h_left | h_other
      · exact .inl h_record
      · exact .inr (.inl (h_leftovers n h_left h_n))
      · exact .inr (.inr h_other) }

end

end Kubek.Content
