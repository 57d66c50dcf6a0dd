/-
  Kubek.Content.Turns

  The turns of the tasks: what each await of an install and of a removal leaves behind, and
  that it keeps the invariant.
-/

import Kubek.Content.Ownership

namespace Kubek.Content

open KeyedRows

section

variable {s s' : State} {a : Store}

/-! ### Beginning -/

/-- What holds of the tasks in flight but `i` holds of every index but `i`. -/
theorem of_others {i : Nat} {P : Task → Prop} (h_done : P .done)
    (h : ∀ t ∈ s.others i, P t) (j : Nat) (h_j : j ≠ i) : P (s.taskAt j) := by
  by_cases h_lt : j < s.tasks.length
  · refine h _ (List.mem_map.mpr ⟨j, List.mem_filter.mpr ⟨List.mem_range.mpr h_lt, ?_⟩, rfl⟩)
    simpa using h_j
  · have h_at : s.taskAt j = .done := by
      simp [State.taskAt, Suspended.get, List.getElem?_eq_none (Nat.le_of_not_lt h_lt)]
    rw [h_at]
    exact h_done

theorem not_mem_claims_of_isFree {i : Nat} {id : RecordId} (h : s.isFree i id = true) (j : Nat)
    (h_j : j ≠ i) : id ∉ (s.taskAt j).claims := by
  refine of_others (P := fun t => id ∉ t.claims) (by simp [Task.claims]) (fun t h_t => ?_) j h_j
  simpa using List.all_eq_true.mp h t h_t

/-- Idle work: nothing that another task could have in common with it. -/
def Task.Idle (t : Task) : Prop :=
  t.claims = [] ∧ t.names = [] ∧ t.creates = none ∧ ∀ a : Store, t.Fits a

theorem idle_nextDependency (main : RecordId) (rest : List Dependency) :
    (Store.nextDependency main rest).Idle := by
  cases rest with
  | nil => exact ⟨rfl, rfl, rfl, fun _ => trivial⟩
  | cons dependency rest => exact ⟨rfl, rfl, rfl, fun _ => trivial⟩

/-- `installSingle` is over before its first await, or it has an install at hand. -/
theorem beginInstall_cases (a : Store) (override : Option ContentRecord)
    (version : ModrinthVersion) (dependencyOf : Option RecordId) (rest : List Dependency)
    (now : Nat) :
    (a.beginInstall override version dependencyOf rest now).Idle ∨
      ∃ job, a.beginInstall override version dependencyOf rest now = .installing .preparing job ∧
        job.existing = override.or (a.findByProject version.projectId) ∧
        job.version = version ∧ isSafeFileName job.file.filename = true := by
  have h_done : Task.Idle .done := ⟨rfl, rfl, rfl, fun _ => trivial⟩
  simp only [Store.beginInstall]
  split
  · exact .inl (idle_nextDependency _ _)
  · split
    · exact .inl h_done
    · rename_i file h_file
      split
      · exact .inl h_done
      · rename_i h_refused
        have h_safe : isSafeFileName file.filename = true := by
          by_contra h_not
          exact h_refused (by simp [h_not])
        exact .inr ⟨_, rfl, rfl, rfl, h_safe⟩

theorem mem_of_findById {id : RecordId} {r : ContentRecord} (h : a.findById id = some r) :
    r ∈ a.records ∧ r.id = id :=
  ⟨List.mem_of_find?_eq_some h, by simpa using List.find?_some h⟩

theorem tracked_of_mem {r : ContentRecord} (h : r ∈ a.records) : a.Tracked r := ⟨r, h, rfl⟩

theorem Store.Keyed.lt_of_tracked (h : a.Keyed) {r : ContentRecord} (h_r : a.Tracked r) :
    r.id < a.nextId := by
  obtain ⟨r', h_r', h_core⟩ := h_r
  exact id_of_core h_core ▸ h.fresh r' h_r'

/-- An install begins where it has room. -/
theorem turn_begin {i : Nat} {override : Option ContentRecord} {version : ModrinthVersion}
    {dependencyOf : Option RecordId} {rest : List Dependency} {now : Nat} (hs : Inv s)
    (h_override : ∀ e ∈ override, s.store.Tracked e)
    (h_dropped : (s.taskAt i).dropped = []) (h_leftovers : (s.taskAt i).leftovers = [])
    (h_room : ∀ job, s.store.beginInstall override version dependencyOf rest now =
      .installing .preparing job → s.hasRoomFor i job = true) :
    Turn s i (s.store, s.store.beginInstall override version dependencyOf rest now) := by
  rcases beginInstall_cases s.store override version dependencyOf rest now with
    ⟨h_claims, h_names, h_creates, h_fits⟩ | ⟨job, h_job, h_existing, h_version, h_safe⟩
  · exact turn_ends hs ⟨h_claims, h_names, h_creates⟩ (h_fits s.store) h_dropped h_leftovers
  · have h_hasRoom := h_room job h_job
    rw [h_job]
    simp only [State.hasRoomFor, Bool.and_eq_true, List.all_eq_true, decide_eq_true_eq] at h_hasRoom
    obtain ⟨⟨⟨h_free, h_others⟩, h_records⟩, h_temp⟩ := h_hasRoom
    have h_tracked : ∀ e ∈ job.existing, s.store.Tracked e := by
      intro e h_e
      rw [h_existing] at h_e
      rcases Option.or_eq_some_iff.mp h_e with h_own | ⟨-, h_found⟩
      · exact h_override e h_own
      · exact tracked_of_mem (List.mem_of_find?_eq_some h_found)
    have h_claim : ∀ r : ContentRecord, r.id ∈ (Task.installing .preparing job).claims →
        some r.id = job.existing.map (·.id) := by
      intro r h_mem
      obtain ⟨e, h_e, h_id⟩ := List.mem_map.mp h_mem
      rw [Option.mem_toList.mp h_e, Option.map_some, h_id]
    refine turn_same hs (fun j h_j => ⟨?_, ?_, ?_⟩) ?_ ?_ ?_ ?_
    · exact fun id h_id => not_mem_claims_of_isFree (h_free id h_id) j h_j
    · have h_apart := of_others (P := fun u => ∀ n ∈ (Task.installing .preparing job).names,
        n ∉ u.names) (by simp [Task.names]) (fun u h_u => (h_others u h_u).1) j h_j
      exact h_apart
    · intro p h_p
      refine of_others (P := fun u => u.creates ≠ some p) (by simp [Task.creates])
        (fun u h_u h_eq => ?_) j h_j
      have h_new := (h_others u h_u).2
      rw [h_p, h_eq] at h_new
      exact absurd h_new (by simp)
    · show job.Fits s.store .preparing
      exact {
        existing := h_tracked
        project := by
          intro h_none r h_r
          rw [h_existing, Option.or_eq_none_iff] at h_none
          rw [h_version]
          exact findBy_eq_none_iff.mp h_none.2 r h_r
        target := by
          intro r h_r h_name
          rcases Bool.or_eq_true_iff.mp (h_records r h_r).2 with h_ne | h_mem
          · exact absurd h_name (by simpa using h_ne)
          · exact h_claim r (by simpa using h_mem)
        temp := fun r h_r => (h_records r h_r).1
        apart := h_temp
        safe := h_safe
        fetched := by simp
        renamed := by simp
        dropped := by simp
        replaced := by simp }
    · intro id h_id
      obtain ⟨e, h_e, rfl⟩ := List.mem_map.mp h_id
      exact hs.keyed.lt_of_tracked (h_tracked e (by simpa using h_e))
    · simp [h_dropped]
    · simp [h_leftovers]

/-! ### Installing -/

/-- The check of a download passes. -/
theorem turn_downloads {env : Env} {i : Nat} {job : Job} {bytes : Bytes} (hs : Inv s)
    (h_at : s.taskAt i = .installing .downloading job) :
    Turn s i (s.store.keep job.temp job.version.id bytes,
      .installing .droppingOld { job with fileHash := job.file.hashOf env bytes }) := by
  have h_job : job.Fits s.store .downloading := by
    have h_fits := hs.fits i
    rw [h_at] at h_fits
    exact h_fits
  have h_mem : job.temp ∈ (s.taskAt i).names := by rw [h_at]; exact List.mem_cons_self
  have h_kept : ∀ n, n ≠ job.temp →
      (s.store.keep job.temp job.version.id bytes).folder n = s.store.folder n := fun n h_n =>
    Function.update_of_ne h_n _ _
  have h_new : (s.store.keep job.temp job.version.id bytes).folder job.temp =
      some ⟨bytes, true⟩ := Function.update_self _ _ _
  have h_verified : ∀ v ∈ s.store.verified,
      v ∈ (s.store.keep job.temp job.version.id bytes).verified := fun _ h_v =>
    List.mem_append_left _ h_v
  exact {
    keyed := ⟨hs.keyed.ids, hs.keyed.projects, hs.keyed.names, hs.keyed.fresh, hs.keyed.safe⟩
    changes := ⟨fun r h_r _ => ⟨r, h_r, rfl⟩, fun r h_r => .inl ⟨r, h_r, rfl⟩,
      fun n h_n _ => h_kept n fun h_eq => h_n (h_eq ▸ h_mem), h_verified, Nat.le_refl _⟩
    apart := by
      intro j h_j
      have h_apart := hs.apart i j h_j.symm
      rw [h_at] at h_apart
      exact ⟨h_apart.claims, h_apart.names, h_apart.creates⟩
    fits := by
      show Job.Fits _ .droppingOld _
      exact {
        existing := h_job.existing
        project := h_job.project
        target := h_job.target
        temp := h_job.temp
        apart := h_job.apart
        safe := h_job.safe
        fetched := fun _ => ⟨_, h_new, List.mem_append_right _ List.mem_cons_self⟩
        renamed := by simp
        dropped := by simp
        replaced := by simp }
    old := by
      have h_old := hs.old i
      rw [h_at] at h_old
      exact h_old
    intact := by
      intro r h_r h_own
      have h_claim := hs.claim_of_touched h_r h_own
      rcases hs.intact_own h_r h_claim with ⟨file, h_file, h_ver⟩ | h_drop
      · exact .inl ⟨file, (h_kept _ (h_job.temp r h_r)).trans h_file, h_verified _ h_ver⟩
      · rw [h_at] at h_drop
        exact absurd h_drop (by simp [Task.dropped])
    placed := by
      intro n file h_file h_placed
      by_cases h_n : n = job.temp
      · exact .inr (.inl (by simp [Task.leftovers, h_n]))
      · rcases hs.placed_cases (i := i) ((h_kept n h_n).symm.trans h_file) h_placed with
          h_record | h_left | h_other
        · exact .inl h_record
        · rw [h_at] at h_left
          exact absurd h_left (by simp [Task.leftovers])
        · exact .inr (.inr h_other) }

/-- An install between two awaits keeps what it has in common with nobody. -/
theorem turn_unlinkInstalling {i : Nat} {phase phase' : InstallPhase} {job : Job} {name : String}
    (hs : Inv s) (h_at : s.taskAt i = .installing phase job)
    (h_own : name ∈ (s.taskAt i).names ∨
      ∃ r ∈ s.store.records, r.id ∈ (s.taskAt i).claims ∧ r.fileName = name)
    (h_fits : job.Fits (s.store.unlink name) phase')
    (h_dropped : phase' = .droppingTarget ∨ phase' = .moving ∨ phase' = .persisting)
    (h_gone : ∀ r ∈ s.store.records, r.fileName = name → some r.id = job.existing.map (·.id))
    (h_leftovers : phase' = .droppingTarget ∨ phase' = .moving)
    (h_before : phase = .droppingOld ∨ phase = .droppingTarget) :
    Turn s i (s.store.unlink name, .installing phase' job) := by
  have h_all : (Task.installing phase' job).dropped = (s.taskAt i).claims := by
    rw [h_at]
    exact if_pos h_dropped
  have h_claims : (Task.installing phase' job).claims = (s.taskAt i).claims := by
    rw [h_at]
    rfl
  refine turn_unlink hs (fun id h_id => h_claims ▸ h_id) (by rw [h_at]; exact fun _ h => h)
    (by rw [h_at]; exact fun _ h => h) h_own h_fits (fun id h_id => ?_) (fun r h_r h_name => ?_)
    fun n h_n _ => ?_
  · rw [h_all]
    exact dropped_subset_claims h_id
  · obtain ⟨e, h_e, h_id⟩ := Option.map_eq_some_iff.mp (h_gone r h_r h_name).symm
    rw [h_all, h_at]
    exact List.mem_map.mpr ⟨e, by simpa using h_e, h_id⟩
  · have h_temp : n = job.temp := by
      rw [h_at] at h_n
      rcases h_before with rfl | rfl
      · simpa [Task.leftovers] using h_n
      · simpa [Task.leftovers] using h_n
    rcases h_leftovers with rfl | rfl
    · simp [Task.leftovers, h_temp]
    · simp [Task.leftovers, h_temp]

/-- The file of a snapshot that is current can be removed. -/
theorem removeFile_of_tracked {r : ContentRecord} (h_keyed : a.Keyed) (h : a.Tracked r) :
    a.removeFile r.fileName = a.unlink r.fileName := by
  obtain ⟨r', h_r', h_core⟩ := h
  have h_safe := h_keyed.safe r' h_r'
  rw [fileName_of_core h_core] at h_safe
  exact if_pos h_safe

theorem Store.Holds.unlink {name versionId gone : String} (h : a.Holds name versionId)
    (h_ne : name ≠ gone) : (a.unlink gone).Holds name versionId := by
  obtain ⟨file, h_file, h_ver⟩ := h
  exact ⟨file, (Function.update_of_ne h_ne _ _).trans h_file, h_ver⟩

/-- The old file goes. -/
theorem turn_droppingOld {i : Nat} {job : Job} (hs : Inv s)
    (h_at : s.taskAt i = .installing .droppingOld job) {p : Store × Task}
    (h : s.store.installGoesOn .droppingOld job = some p) : Turn s i p := by
  have h_job : job.Fits s.store .droppingOld := by
    have h_fits := hs.fits i
    rw [h_at] at h_fits
    exact h_fits
  cases h_existing : job.existing with
  | none =>
    simp only [Store.installGoesOn, h_existing, Option.some.injEq] at h
    subst h
    have h_fits : job.Fits s.store .droppingTarget :=
      { h_job with
        fetched := fun _ => h_job.fetched (.inl rfl)
        renamed := by simp
        dropped := by simp [h_existing]
        replaced := by simp }
    have h_apart := hs.apart i
    have h_old := hs.old i
    rw [h_at] at h_apart h_old
    refine turn_same hs (fun j h_j => ?_) h_fits h_old ?_ ?_
    · have h_j' := h_apart j h_j.symm
      exact ⟨h_j'.claims, h_j'.names, h_j'.creates⟩
    · simp [h_at, Task.dropped]
    · simp [h_at, Task.leftovers]
  | some e =>
    simp only [Store.installGoesOn, h_existing, Option.some.injEq] at h
    subst h
    have h_tracked : s.store.Tracked e := h_job.existing e (by simp [h_existing])
    rw [removeFile_of_tracked hs.keyed h_tracked]
    obtain ⟨r, h_r, h_core⟩ := h_tracked
    have h_name := fileName_of_core h_core
    have h_id := id_of_core h_core
    have h_temp : job.temp ≠ e.fileName := fun h_eq =>
      h_job.temp r h_r (h_name.trans h_eq.symm)
    have h_fits : job.Fits (s.store.unlink e.fileName) .droppingTarget :=
      { existing := h_job.existing
        project := h_job.project
        target := h_job.target
        temp := h_job.temp
        apart := h_job.apart
        safe := h_job.safe
        fetched := fun _ => (h_job.fetched (.inl rfl)).unlink h_temp
        renamed := by simp
        dropped := by
          intro _ e' h_e'
          obtain rfl : e = e' := by simpa [h_existing] using h_e'
          exact Function.update_self _ _ _
        replaced := by simp }
    refine turn_unlinkInstalling hs h_at (.inr ⟨r, h_r, ?_, h_name⟩) h_fits (.inl rfl)
      (fun r' h_r' h_eq => ?_) (.inl rfl) (.inl rfl)
    · rw [h_at, h_id]
      simp [Task.claims, h_existing]
    · have h_same := hs.keyed.names.eq_of_col h_r' h_r (h_eq.trans h_name.symm)
      rw [h_same, h_id, h_existing]
      rfl

/-- Whatever has the name of the new file goes. -/
theorem turn_droppingTarget {i : Nat} {job : Job} (hs : Inv s)
    (h_at : s.taskAt i = .installing .droppingTarget job) :
    Turn s i (s.store.unlink job.file.filename, .installing .moving job) := by
  have h_job : job.Fits s.store .droppingTarget := by
    have h_fits := hs.fits i
    rw [h_at] at h_fits
    exact h_fits
  have h_fits : job.Fits (s.store.unlink job.file.filename) .moving :=
    { existing := h_job.existing
      project := h_job.project
      target := h_job.target
      temp := h_job.temp
      apart := h_job.apart
      safe := h_job.safe
      fetched := fun _ => (h_job.fetched (.inr (.inl rfl))).unlink h_job.apart
      renamed := by simp
      dropped := by
        intro _ e h_e
        by_cases h_eq : e.fileName = job.file.filename
        · rw [h_eq]
          exact Function.update_self _ _ _
        · exact (Function.update_of_ne h_eq _ _).trans (h_job.dropped (.inl rfl) e h_e)
      replaced := by simp }
  refine turn_unlinkInstalling hs h_at (.inl ?_) h_fits (.inr (.inl rfl)) h_job.target (.inr rfl)
    (.inr rfl)
  rw [h_at]
  exact List.mem_cons_of_mem _ List.mem_cons_self

/-- The new file takes its place. -/
theorem turn_moving {i : Nat} {job : Job} (hs : Inv s)
    (h_at : s.taskAt i = .installing .moving job) :
    Turn s i (s.store.rename job.temp job.file.filename, .installing .persisting job) := by
  have h_job : job.Fits s.store .moving := by
    have h_fits := hs.fits i
    rw [h_at] at h_fits
    exact h_fits
  have h_kept : ∀ n, n ≠ job.temp → n ≠ job.file.filename →
      (s.store.rename job.temp job.file.filename).folder n = s.store.folder n := by
    intro n h_temp h_target
    show Function.update (Function.update _ _ _) _ _ n = _
    rw [Function.update_of_ne h_target, Function.update_of_ne h_temp]
  have h_target : (s.store.rename job.temp job.file.filename).folder job.file.filename =
      s.store.folder job.temp := Function.update_self _ _ _
  have h_temp : (s.store.rename job.temp job.file.filename).folder job.temp = none := by
    show Function.update (Function.update _ _ _) _ _ _ = _
    rw [Function.update_of_ne h_job.apart, Function.update_self]
  exact {
    keyed := ⟨hs.keyed.ids, hs.keyed.projects, hs.keyed.names, hs.keyed.fresh, hs.keyed.safe⟩
    changes := by
      refine ⟨fun r h_r _ => ⟨r, h_r, rfl⟩, fun r h_r => .inl ⟨r, h_r, rfl⟩,
        fun n h_n _ => h_kept n ?_ ?_, fun _ h_v => h_v, Nat.le_refl _⟩
      · rintro rfl
        exact h_n (by rw [h_at]; exact List.mem_cons_self)
      · rintro rfl
        exact h_n (by rw [h_at]; exact List.mem_cons_of_mem _ List.mem_cons_self)
    apart := by
      intro j h_j
      have h_apart := hs.apart i j h_j.symm
      rw [h_at] at h_apart
      exact ⟨h_apart.claims, h_apart.names, h_apart.creates⟩
    fits := by
      show Job.Fits _ .persisting _
      exact {
        existing := h_job.existing
        project := h_job.project
        target := h_job.target
        temp := h_job.temp
        apart := h_job.apart
        safe := h_job.safe
        fetched := by simp
        renamed := by
          intro _
          obtain ⟨file, h_file, h_ver⟩ := h_job.fetched (.inr (.inr rfl))
          exact ⟨file, h_target.trans h_file, h_ver⟩
        dropped := by simp
        replaced := by
          intro _ e h_e h_ne
          obtain ⟨r, h_r, h_core⟩ := h_job.existing e h_e
          have h_old : e.fileName ≠ job.temp := fileName_of_core h_core ▸ h_job.temp r h_r
          exact (h_kept _ h_old h_ne).trans (h_job.dropped (.inr rfl) e h_e) }
    old := by
      have h_old := hs.old i
      rw [h_at] at h_old
      exact h_old
    intact := by
      intro r h_r h_own
      have h_claim := hs.claim_of_touched h_r h_own
      rw [h_at] at h_claim
      exact .inr (by simpa [Task.dropped, Task.claims] using h_claim)
    placed := by
      intro n file h_file h_placed
      by_cases h_n : n = job.file.filename
      · exact .inr (.inl (by simp [Task.leftovers, h_n]))
      · have h_n' : n ≠ job.temp := by
          rintro rfl
          exact absurd (h_temp.symm.trans h_file) (by simp)
        rcases hs.placed_cases (i := i) ((h_kept n h_n' h_n).symm.trans h_file) h_placed with
          h_record | h_left | h_other
        · exact .inl h_record
        · rw [h_at] at h_left
          exact absurd (by simpa [Task.leftovers] using h_left) h_n'
        · exact .inr (.inr h_other) }

theorem Store.Keyed.findById_eq (h : a.Keyed) {r : ContentRecord} (h_r : a.Tracked r) :
    ∃ r', a.findById r.id = some r' ∧ r'.core = r.core := by
  obtain ⟨r', h_r', h_core⟩ := h_r
  exact ⟨r', (findBy_eq_some_iff h.ids).mpr ⟨h_r', id_of_core h_core⟩, h_core⟩

/-- The row of an update is written. -/
theorem turn_persistUpdate {i : Nat} {job : Job} {e : ContentRecord} {next : Task} (hs : Inv s)
    (h_at : s.taskAt i = .installing .persisting job) (h_existing : job.existing = some e)
    (h_next : next.Idle) :
    Turn s i ({ s.store with
      records := modifyRow (·.id) e.id
        (fun r => { r with
          versionId := job.version.id, fileName := job.file.filename, fileHash := job.fileHash
          dependencyOf := job.dependencyOf }) s.store.records }, next) := by
  obtain ⟨h_claims, h_names, h_creates, h_fits⟩ := h_next
  have h_job : job.Fits s.store .persisting := by
    have h_at_fits := hs.fits i
    rw [h_at] at h_at_fits
    exact h_at_fits
  have h_own : ∀ id, id ∈ (s.taskAt i).claims ↔ id = e.id := by
    intro id
    rw [h_at]
    simp [Task.claims, h_existing]
  have h_other : ∀ r ∈ s.store.records, r.id ≠ e.id → r.fileName ≠ job.file.filename := by
    intro r h_r h_ne h_name
    have h_id := h_job.target r h_r h_name
    rw [h_existing] at h_id
    exact h_ne (Option.some.inj h_id)
  obtain ⟨row, h_row, h_core⟩ := h_job.existing e (by simp [h_existing])
  have h_row_id := id_of_core h_core
  exact {
    keyed := by
      refine ⟨hs.keyed.ids.modifyRow_same fun _ _ => rfl,
        hs.keyed.projects.modifyRow_same fun _ _ => rfl,
        hs.keyed.names.modifyRow_set hs.keyed.ids (fun _ _ => rfl) h_other,
        fun r h_r => ?_, fun r h_r => ?_⟩
      · rcases mem_modifyRow.mp h_r with ⟨r₀, h_r₀, -, rfl⟩ | ⟨h_old, -⟩
        · exact hs.keyed.fresh r₀ h_r₀
        · exact hs.keyed.fresh r h_old
      · rcases mem_modifyRow.mp h_r with ⟨r₀, -, -, rfl⟩ | ⟨h_old, -⟩
        · exact h_job.safe
        · exact hs.keyed.safe r h_old
    changes := by
      refine ⟨fun r h_r h_claim => ?_, fun r h_r => ?_, fun _ _ _ => rfl, fun _ h_v => h_v,
        Nat.le_refl _⟩
      · have h_ne : r.id ≠ e.id := fun h_eq => h_claim ((h_own r.id).mpr h_eq)
        exact ⟨r, mem_modifyRow.mpr (.inr ⟨h_r, h_ne⟩), rfl⟩
      · rcases mem_modifyRow.mp h_r with ⟨r₀, h_r₀, h_id, rfl⟩ | ⟨h_old, -⟩
        · refine .inr ⟨?_, .inl ⟨(h_own _).mpr h_id, r₀, h_r₀, rfl⟩⟩
          rw [h_at]
          exact List.mem_cons_of_mem _ List.mem_cons_self
        · exact .inl ⟨r, h_old, rfl⟩
    apart := fun j _ => ⟨by simp [h_claims], by simp [h_names], by simp [h_creates]⟩
    fits := h_fits _
    old := by simp [h_claims]
    intact := by
      intro r h_r h_touched
      rcases mem_modifyRow.mp h_r with ⟨r₀, -, -, rfl⟩ | ⟨h_old, h_ne⟩
      · exact .inl (h_job.renamed rfl)
      · have h_claim := hs.claim_of_touched h_old h_touched
        exact absurd ((h_own r.id).mp h_claim) h_ne
    placed := by
      intro n file h_file h_placed
      have h_written : ∃ r ∈ modifyRow (·.id) e.id (fun r : ContentRecord => { r with
          versionId := job.version.id, fileName := job.file.filename, fileHash := job.fileHash
          dependencyOf := job.dependencyOf }) s.store.records, r.fileName = job.file.filename :=
        ⟨_, mem_modifyRow.mpr (.inl ⟨row, h_row, h_row_id, rfl⟩), rfl⟩
      by_cases h_n : n = job.file.filename
      · exact .inl (h_n ▸ h_written)
      · rcases hs.placed_cases (i := i) h_file h_placed with ⟨r, h_r, h_name⟩ | h_left | h_rest
        · by_cases h_id : r.id = e.id
          · -- the old name of the row, whose file is gone
            have h_same := hs.keyed.ids.eq_of_col h_r h_row (h_id.trans h_row_id.symm)
            have h_old : e.fileName = n := by
              rw [← fileName_of_core h_core, ← h_same]
              exact h_name
            have h_none := h_job.replaced rfl e (by simp [h_existing]) (h_old ▸ h_n)
            rw [h_old] at h_none
            exact absurd (h_none.symm.trans h_file) (by simp)
          · exact .inl ⟨r, mem_modifyRow.mpr (.inr ⟨h_r, h_id⟩), h_name⟩
        · rw [h_at] at h_left
          exact absurd (by simpa [Task.leftovers] using h_left) h_n
        · exact .inr (.inr h_rest) }

/-- The row of a new install is written. -/
theorem turn_persistCreate {i : Nat} {job : Job} {next : Task} (hs : Inv s)
    (h_at : s.taskAt i = .installing .persisting job) (h_existing : job.existing = none)
    (h_next : next.Idle) :
    Turn s i ({ s.store with
      records := s.store.records ++ [⟨s.store.nextId, job.version.projectId, job.version.id,
        job.file.filename, job.fileHash, job.dependencyOf⟩]
      nextId := s.store.nextId + 1 }, next) := by
  obtain ⟨h_claims, h_names, h_creates, h_fits⟩ := h_next
  have h_job : job.Fits s.store .persisting := by
    have h_at_fits := hs.fits i
    rw [h_at] at h_at_fits
    exact h_at_fits
  have h_other : ∀ r ∈ s.store.records, r.fileName ≠ job.file.filename := by
    intro r h_r h_name
    have h_id := h_job.target r h_r h_name
    rw [h_existing] at h_id
    exact absurd h_id (by simp)
  have h_newId : ∀ r ∈ s.store.records, r.id ≠ s.store.nextId := fun r h_r =>
    Nat.ne_of_lt (hs.keyed.fresh r h_r)
  exact {
    keyed := by
      refine ⟨hs.keyed.ids.append h_newId, hs.keyed.projects.append (h_job.project h_existing),
        hs.keyed.names.append h_other, fun r h_r => ?_, fun r h_r => ?_⟩
      · rcases List.mem_append.mp h_r with h_old | h_new
        · exact Nat.lt_succ_of_lt (hs.keyed.fresh r h_old)
        · rw [List.mem_singleton.mp h_new]
          exact Nat.lt_succ_self _
      · rcases List.mem_append.mp h_r with h_old | h_new
        · exact hs.keyed.safe r h_old
        · rw [List.mem_singleton.mp h_new]
          exact h_job.safe
    changes := by
      refine ⟨fun r h_r _ => ⟨r, List.mem_append_left _ h_r, rfl⟩, fun r h_r => ?_,
        fun _ _ _ => rfl, fun _ h_v => h_v, Nat.le_succ _⟩
      rcases List.mem_append.mp h_r with h_old | h_new
      · exact .inl ⟨r, h_old, rfl⟩
      · rw [List.mem_singleton.mp h_new, h_at]
        exact .inr ⟨List.mem_cons_of_mem _ List.mem_cons_self,
          .inr ⟨rfl, by simp [Task.creates, h_existing]⟩⟩
    apart := fun j _ => ⟨by simp [h_claims], by simp [h_names], by simp [h_creates]⟩
    fits := h_fits _
    old := by simp [h_claims]
    intact := by
      intro r h_r h_touched
      rcases List.mem_append.mp h_r with h_old | h_new
      · have h_claim := hs.claim_of_touched h_old h_touched
        rw [h_at] at h_claim
        exact absurd h_claim (by simp [Task.claims, h_existing])
      · rw [List.mem_singleton.mp h_new]
        exact .inl (h_job.renamed rfl)
    placed := by
      intro n file h_file h_placed
      rcases hs.placed_cases (i := i) h_file h_placed with ⟨r, h_r, h_name⟩ | h_left | h_rest
      · exact .inl ⟨r, List.mem_append_left _ h_r, h_name⟩
      · rw [h_at] at h_left
        have h_n : n = job.file.filename := by simpa [Task.leftovers] using h_left
        exact .inl ⟨_, List.mem_append_right _ List.mem_cons_self, h_n.symm⟩
      · exact .inr (.inr h_rest) }

/-- `persist` where the parent of the row is there. -/
theorem turn_persisting {i : Nat} {job : Job} (hs : Inv s)
    (h_at : s.taskAt i = .installing .persisting job)
    (h_parent : s.store.pointsToRow ((job.existing.map (·.id)).getD s.store.nextId)
      job.dependencyOf = true) : Turn s i (s.store.persist job) := by
  have h_job : job.Fits s.store .persisting := by
    have h_at_fits := hs.fits i
    rw [h_at] at h_at_fits
    exact h_at_fits
  cases h_existing : job.existing with
  | none =>
    have h_free : s.store.findByProject job.version.projectId = none :=
      findBy_eq_none_iff.mpr (h_job.project h_existing)
    have h_points : s.store.pointsToRow s.store.nextId job.dependencyOf = true := by
      simpa [h_existing] using h_parent
    simp only [Store.persist, h_existing, Store.create, h_free, h_points]
    exact turn_persistCreate hs h_at h_existing (idle_nextDependency _ _)
  | some e =>
    obtain ⟨row, h_row, -⟩ := hs.keyed.findById_eq (h_job.existing e (by simp [h_existing]))
    have h_points : s.store.pointsToRow e.id job.dependencyOf = true := by
      simpa [h_existing] using h_parent
    simp only [Store.persist, h_existing, Store.update, h_row, h_points]
    exact turn_persistUpdate hs h_at h_existing (idle_nextDependency _ _)

/-! ### Removing -/

theorem core_delete (id : RecordId) (r : ContentRecord) :
    (if r.dependencyOf = some id then { r with dependencyOf := none } else r).core = r.core := by
  split <;> rfl

/-- The rows that stay are the others, apart from what they depended on. -/
theorem mem_delete {id : RecordId} {r' : ContentRecord} (h : r' ∈ (a.delete id).records) :
    ∃ r ∈ a.records, r.id ≠ id ∧ r'.core = r.core := by
  obtain ⟨r, h_r, rfl⟩ := List.mem_map.mp h
  obtain ⟨h_mem, h_ne⟩ := List.mem_filter.mp h_r
  exact ⟨r, h_mem, by simpa using h_ne, core_delete id r⟩

theorem tracked_delete {id : RecordId} {r : ContentRecord} (h_r : r ∈ a.records)
    (h_ne : r.id ≠ id) : (a.delete id).Tracked r :=
  ⟨_, List.mem_map.mpr ⟨r, List.mem_filter.mpr ⟨h_r, by simpa using h_ne⟩, rfl⟩, core_delete id r⟩

theorem UniqueCol.delete {L : Type} {col : ContentRecord → L} (h : UniqueCol col a.records)
    (h_core : ∀ r : ContentRecord, col r.core = col r) (id : RecordId) :
    UniqueCol col (a.delete id).records := by
  have h_col : ∀ r : ContentRecord,
      col (if r.dependencyOf = some id then { r with dependencyOf := none } else r) = col r := by
    intro r
    rw [← h_core, core_delete, h_core]
  show (List.map col (List.map _ _)).Nodup
  rw [List.map_map]
  have h_same : List.map (col ∘ fun r : ContentRecord =>
      if r.dependencyOf = some id then { r with dependencyOf := none } else r)
      (a.records.filter (·.id ≠ id)) = (a.records.filter (·.id ≠ id)).map col :=
    List.map_congr_left fun r _ => h_col r
  rw [h_same]
  exact h.filter _

/-- The innermost record goes, with its file gone already. -/
theorem turn_delete {i : Nat} {visited : List RecordId} {frame : Frame} {stack : List Frame}
    (hs : Inv s) (h_stack : StackFits s.store visited (frame :: stack))
    (h_own : ∀ id ∈ Task.stackClaims (frame :: stack), id < s.store.nextId ∧
      ∀ j, j ≠ i → id ∉ (s.taskAt j).claims)
    (h_claims : frame.id ∈ (s.taskAt i).claims)
    (h_dropped : ∀ id ∈ (s.taskAt i).dropped, id ∈ (frame :: stack).map (·.id))
    (h_leftovers : (s.taskAt i).leftovers = []) :
    Turn s i (s.store.delete frame.id, .returned visited stack) := by
  have h_rest : ∀ id ∈ Task.stackClaims stack, id ∈ Task.stackClaims (frame :: stack) := by
    intro id h_id
    obtain ⟨f, h_f, h_eq⟩ := mem_stackClaims.mp h_id
    exact mem_stackClaims.mpr ⟨f, List.mem_cons_of_mem _ h_f, h_eq⟩
  exact {
    keyed := by
      refine ⟨UniqueCol.delete hs.keyed.ids (fun _ => rfl) _,
        UniqueCol.delete hs.keyed.projects (fun _ => rfl) _,
        UniqueCol.delete hs.keyed.names (fun _ => rfl) _, fun r' h_r' => ?_, fun r' h_r' => ?_⟩
      · obtain ⟨r, h_r, -, h_core⟩ := mem_delete h_r'
        rw [id_of_core h_core]
        exact hs.keyed.fresh r h_r
      · obtain ⟨r, h_r, -, h_core⟩ := mem_delete h_r'
        rw [fileName_of_core h_core]
        exact hs.keyed.safe r h_r
    changes := by
      refine ⟨fun r h_r h_claim => ?_, fun r' h_r' => ?_, fun _ _ _ => rfl, fun _ h_v => h_v,
        Nat.le_refl _⟩
      · exact tracked_delete h_r fun h_eq => h_claim (h_eq ▸ h_claims)
      · obtain ⟨r, h_r, -, h_core⟩ := mem_delete h_r'
        exact .inl ⟨r, h_r, h_core.symm⟩
    apart := fun j h_j => ⟨fun id h_id => (h_own id (h_rest id h_id)).2 j h_j,
      by simp [Task.names], by simp [Task.creates]⟩
    fits := by
      show StackFits _ _ _
      refine ⟨fun f h_f r' h_r' h_id => ?_, fun f h_f => h_stack.seen f (List.mem_cons_of_mem _ h_f),
        fun f h_f d h_d => ?_⟩
      · obtain ⟨r, h_r, -, h_core⟩ := mem_delete h_r'
        rw [fileName_of_core h_core]
        exact h_stack.gone f (List.mem_cons_of_mem _ h_f) r h_r ((id_of_core h_core).symm.trans h_id)
      · rcases h_stack.pending f (List.mem_cons_of_mem _ h_f) d h_d with h_seen | ⟨r, h_r, h_core⟩
        · exact .inl h_seen
        · by_cases h_id : r.id = frame.id
          · have h_seen := h_stack.seen frame List.mem_cons_self
            rw [← h_id, id_of_core h_core] at h_seen
            exact .inl h_seen
          · obtain ⟨r', h_r', h_core'⟩ := tracked_delete h_r h_id
            exact .inr ⟨r', h_r', h_core'.trans h_core⟩
    old := fun id h_id => (h_own id (h_rest id h_id)).1
    intact := by
      intro r' h_r' h_touched
      obtain ⟨r, h_r, h_ne, h_core⟩ := mem_delete h_r'
      have h_id := id_of_core h_core
      rw [h_id] at h_touched ⊢
      rcases hs.intact_own h_r (hs.claim_of_touched h_r h_touched) with ⟨file, h_file, h_ver⟩ | h_drop
      · rw [← fileName_of_core h_core] at h_file
        rw [← versionId_of_core h_core] at h_ver
        exact .inl ⟨file, h_file, h_ver⟩
      · rcases List.mem_cons.mp (h_dropped r.id h_drop) with h_eq | h_mem
        · exact absurd h_eq h_ne
        · exact .inr h_mem
    placed := by
      intro n file h_file h_placed
      rcases hs.placed_cases (i := i) h_file h_placed with ⟨r, h_r, h_name⟩ | h_left | h_other
      · by_cases h_id : r.id = frame.id
        · have h_none := h_stack.gone frame List.mem_cons_self r h_r h_id
          rw [h_name] at h_none
          exact absurd (h_none.symm.trans h_file) (by simp)
        · obtain ⟨r', h_r', h_core⟩ := tracked_delete h_r h_id
          exact .inl ⟨r', h_r', (fileName_of_core h_core).trans h_name⟩
      · rw [h_leftovers] at h_left
        exact absurd h_left (by simp)
      · exact .inr (.inr h_other) }

/-- `dropWhile` leaves a part of the list, and its first element was not visited. -/
theorem dropWhile_visited {visited : List RecordId} {pending rest : List ContentRecord}
    {d : ContentRecord} (h : pending.dropWhile (fun d => d.id ∈ visited) = d :: rest) :
    (∀ r ∈ d :: rest, r ∈ pending) ∧ d.id ∉ visited := by
  refine ⟨fun r h_r => ?_, ?_⟩
  · have h_suffix := List.dropWhile_suffix (fun d : ContentRecord => decide (d.id ∈ visited))
      (l := pending)
    rw [h] at h_suffix
    exact h_suffix.subset h_r
  · have h_head := List.head?_dropWhile_not (fun d : ContentRecord => decide (d.id ∈ visited)) pending
    rw [h] at h_head
    simpa using h_head

/-- The loop over the dependants goes on. -/
theorem turn_removalGoesOn {i : Nat} {visited : List RecordId} {stack : List Frame}
    (hs : Inv s) (h_stack : StackFits s.store visited stack)
    (h_own : ∀ id ∈ Task.stackClaims stack, id < s.store.nextId ∧
      ∀ j, j ≠ i → id ∉ (s.taskAt j).claims)
    (h_claims : ∀ frame ∈ stack, frame.id ∈ (s.taskAt i).claims)
    (h_dropped : ∀ id ∈ (s.taskAt i).dropped, id ∈ stack.map (·.id))
    (h_leftovers : (s.taskAt i).leftovers = []) :
    Turn s i (s.store.removalGoesOn visited stack) := by
  cases stack with
  | nil =>
    have h_none : (s.taskAt i).dropped = [] :=
      List.eq_nil_iff_forall_not_mem.mpr fun id h_id => absurd (h_dropped id h_id) (by simp)
    exact turn_ends hs ⟨rfl, rfl, rfl⟩ trivial h_none h_leftovers
  | cons frame stack =>
    simp only [Store.removalGoesOn]
    split
    · rename_i d rest h_drop
      obtain ⟨h_sub, h_new⟩ := dropWhile_visited h_drop
      have h_pending : ∀ r ∈ d :: rest, r.id ∈ Task.stackClaims (frame :: stack) := fun r h_r =>
        mem_stackClaims.mpr ⟨frame, List.mem_cons_self, .inr ⟨r, h_sub r h_r, rfl⟩⟩
      have h_subset : ∀ id ∈ (Store.beginRemoval true visited d (⟨frame.id, rest⟩ :: stack)).claims,
          id ∈ Task.stackClaims (frame :: stack) := by
        intro id h_id
        rcases List.mem_cons.mp h_id with rfl | h_mem
        · exact h_pending d List.mem_cons_self
        · obtain ⟨f, h_f, h_eq⟩ := mem_stackClaims.mp h_mem
          rcases List.mem_cons.mp h_f with rfl | h_f
          · rcases h_eq with rfl | ⟨r, h_r, rfl⟩
            · exact mem_stackClaims.mpr ⟨frame, List.mem_cons_self, .inl rfl⟩
            · exact h_pending r (List.mem_cons_of_mem _ h_r)
          · exact mem_stackClaims.mpr ⟨f, List.mem_cons_of_mem _ h_f, h_eq⟩
      have h_tracked : s.store.Tracked d :=
        (h_stack.pending frame List.mem_cons_self d (h_sub d List.mem_cons_self)).resolve_left h_new
      refine turn_same hs (fun j h_j => ⟨fun id h_id => (h_own id (h_subset id h_id)).2 j h_j, ?_, ?_⟩)
        ⟨h_tracked, List.mem_cons_self, fun f h_f => ?_, fun f h_f => ?_, fun f h_f r h_r => ?_⟩
        (fun id h_id => (h_own id (h_subset id h_id)).1) h_dropped (by simp [h_leftovers])
      · simp [Store.beginRemoval, Task.names]
      · simp [Store.beginRemoval, Task.creates]
      · rcases List.mem_cons.mp h_f with rfl | h_f
        · exact h_stack.gone frame List.mem_cons_self
        · exact h_stack.gone f (List.mem_cons_of_mem _ h_f)
      · rcases List.mem_cons.mp h_f with rfl | h_f
        · exact List.mem_cons_of_mem _ (h_stack.seen frame List.mem_cons_self)
        · exact List.mem_cons_of_mem _ (h_stack.seen f (List.mem_cons_of_mem _ h_f))
      · have h_before : r.id ∈ visited ∨ s.store.Tracked r := by
          rcases List.mem_cons.mp h_f with rfl | h_f
          · exact h_stack.pending frame List.mem_cons_self r (h_sub r (List.mem_cons_of_mem _ h_r))
          · exact h_stack.pending f (List.mem_cons_of_mem _ h_f) r h_r
        exact h_before.imp_left fun h_seen => List.mem_cons_of_mem _ h_seen
    · exact turn_delete hs h_stack h_own (h_claims frame List.mem_cons_self) h_dropped h_leftovers

/-- The file of a record that is to be removed goes. -/
theorem turn_unlinking {i : Nat} {cascade : Bool} {visited : List RecordId}
    {record : ContentRecord} {stack : List Frame} (hs : Inv s)
    (h_at : s.taskAt i = .unlinking cascade visited record stack) :
    Turn s i (s.store.removeFile record.fileName, .unlinked cascade visited record stack) := by
  obtain ⟨h_tracked, h_seen, h_stack⟩ : s.store.Tracked record ∧ record.id ∈ visited ∧
      StackFits s.store visited stack := by
    have h_fits := hs.fits i
    rw [h_at] at h_fits
    exact h_fits
  rw [removeFile_of_tracked hs.keyed h_tracked]
  obtain ⟨r, h_r, h_core⟩ := h_tracked
  have h_name := fileName_of_core h_core
  have h_id := id_of_core h_core
  have h_same : ∀ r' ∈ s.store.records, r'.fileName = record.fileName → r' = r := fun r' h_r' h_eq =>
    hs.keyed.names.eq_of_col h_r' h_r (h_eq.trans h_name.symm)
  have h_none : ∀ n, s.store.folder n = none → (s.store.unlink record.fileName).folder n = none := by
    intro n h_n
    by_cases h_eq : n = record.fileName
    · rw [h_eq]
      exact Function.update_self _ _ _
    · exact (Function.update_of_ne h_eq _ _).trans h_n
  have h_fits : (Task.unlinked cascade visited record stack).Fits
      (s.store.unlink record.fileName) := by
    refine ⟨fun r' h_r' h_eq => ?_, h_seen, fun f h_f r' h_r' h_eq => ?_, h_stack.seen,
      h_stack.pending⟩
    · have h_row := hs.keyed.ids.eq_of_col h_r' h_r (h_eq.trans h_id.symm)
      rw [h_row, h_name]
      exact Function.update_self _ _ _
    · exact h_none _ (h_stack.gone f h_f r' h_r' h_eq)
  refine turn_unlink hs (by rw [h_at]; exact fun _ h => h) (by simp [Task.names])
    (by simp [Task.creates]) (.inr ⟨r, h_r, ?_, h_name⟩) h_fits (fun id h_drop => ?_)
    (fun r' h_r' h_eq => ?_) (by simp [h_at, Task.leftovers])
  · rw [h_at, h_id]
    exact List.mem_cons_self
  · rw [h_at] at h_drop
    exact List.mem_cons_of_mem _ h_drop
  · rw [h_same r' h_r' h_eq, h_id]
    exact List.mem_cons_self

end

end Kubek.Content
