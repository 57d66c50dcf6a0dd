/-
  Kubek.Content.InSync

  Records of managed content and the files they name, over runs.

  Nothing keeps two tasks, two projects or a failing disk apart: an install that ends on the
  name of another project's file replaces it (`collision_breaks`), two installs of one
  project both find no record, and whatever throws between the removal of the old file and
  the row leaves one without the other. `careful` is what it takes: a task begins on records
  and names that no other task has, a name belongs to no other project, and nothing throws
  half way. Every run inside it keeps records and files in step, and no step of a task
  touches the file of a record that is not its own (`inSync_of_reachableUnder`).
-/

import Kubek.Content.Turns

namespace Kubek.Content

open KeyedRows Transition

/-- Tasks begin where they have room, the parent of a dependency is still there when its
    record is written, and nothing throws between two changes that belong together. -/
def careful (s : State) : Event → Bool
  | .install => true
  | .update id | .remove id _ => s.isFree s.tasks.length id
  | .answers i _ version dependencies now =>
      match s.begun i version dependencies now with
      | .installing _ job => s.hasRoomFor i job
      | _ => true
  | .downloads _ _ => true
  | .completes i =>
      match s.taskAt i with
      | .installing .persisting job =>
          s.store.pointsToRow ((job.existing.map (·.id)).getD s.store.nextId) job.dependencyOf
      | .unlinked cascade _ record _ =>
          !cascade || (s.store.listDependants record.id).all fun d => s.isFree i d.id
      | _ => true
  | .throws i =>
      match s.taskAt i with
      | .installing phase _ => phase = .preparing || phase = .downloading
      | .unlinking _ _ _ stack => stack.isEmpty
      | _ => true

/-- The content of one server from some state in step on. -/
def content (env : Env) : Machine State Event where
  init s := s.tasks = [] ∧ s.store.InSync ∧ UniqueCol (·.id) s.store.records ∧
    UniqueCol (·.projectId) s.store.records ∧
    ∀ r ∈ s.store.records, r.id < s.store.nextId ∧ isSafeFileName r.fileName = true
  step := step env

section

variable {s s' : State}

/-! ## Steps -/

/-- A task in flight takes its next turn. -/
theorem Inv.resume {i : Nat} {p : Store × Task} (hs : Inv s) (h_at : s.taskAt i ≠ .done)
    (h : Turn s i p) : Inv (s.resume i p) :=
  hs.turn h rfl (Suspended.get_set _ (Suspended.lt_of_get_ne Task.done h_at) _)

/-- A request begins with the records that it is about. -/
theorem Inv.push {t' : Task} (hs : Inv s) (h_plain : t'.names = [] ∧ t'.creates = none)
    (h_free : ∀ id ∈ t'.claims, id < s.store.nextId ∧
      ∀ j, j ≠ s.tasks.length → id ∉ (s.taskAt j).claims)
    (h_fits : t'.Fits s.store) : Inv (s.push t') := by
  have h_at : s.taskAt s.tasks.length = .done := Suspended.get_length _ _
  have h_turn : Turn s s.tasks.length (s.store, t') :=
    turn_same hs (fun j h_j => ⟨fun id h_id => (h_free id h_id).2 j h_j, by simp [h_plain.1],
      by simp [h_plain.2]⟩) h_fits (fun id h_id => (h_free id h_id).1)
      (by simp [h_at, Task.dropped]) (by simp [h_at, Task.leftovers])
  exact hs.turn h_turn rfl (Suspended.get_push _ _ _)

/-- A request about one record, which no other task works on. -/
theorem Inv.push_found {t' : Task} {id : RecordId} {record : ContentRecord} (hs : Inv s)
    (h_found : s.store.findById id = some record) (h_free : s.isFree s.tasks.length id = true)
    (h_claims : t'.claims = [record.id]) (h_plain : t'.names = [] ∧ t'.creates = none)
    (h_fits : s.store.Tracked record → t'.Fits s.store) : Inv (s.push t') := by
  obtain ⟨h_mem, h_id⟩ := mem_of_findById h_found
  refine hs.push h_plain (fun k h_k => ?_) (h_fits (tracked_of_mem h_mem))
  obtain rfl : k = record.id := by simpa [h_claims] using h_k
  exact ⟨hs.keyed.fresh record h_mem, h_id ▸ not_mem_claims_of_isFree h_free⟩

/-- Modrinth answers. -/
theorem turn_answers {i : Nat} (hs : Inv s) (existing : Option ContentRecord)
    (version : ModrinthVersion) (dependencyOf : Option RecordId) (rest : List Dependency)
    (now : Nat)
    (h_waits : (∃ e, s.taskAt i = .requested e) ∨ ∃ main rest', s.taskAt i = .resolving main rest')
    (h_existing : ∀ e ∈ existing, s.store.Tracked e)
    (h_room : ∀ job, s.store.beginInstall existing version dependencyOf rest now =
      .installing .preparing job → s.hasRoomFor i job = true) :
    Turn s i (s.store, s.store.beginInstall existing version dependencyOf rest now) ∧
      Turn s i (s.store, .done) := by
  obtain ⟨h_dropped, h_leftovers⟩ : (s.taskAt i).dropped = [] ∧ (s.taskAt i).leftovers = [] := by
    rcases h_waits with ⟨e, h⟩ | ⟨main, rest', h⟩
    · rw [h]
      exact ⟨rfl, rfl⟩
    · rw [h]
      exact ⟨rfl, rfl⟩
  exact ⟨turn_begin hs h_existing h_dropped h_leftovers h_room,
    turn_ends hs ⟨rfl, rfl, rfl⟩ trivial h_dropped h_leftovers⟩

/-- What an install awaits is done. -/
theorem turn_installGoesOn {i : Nat} {phase : InstallPhase} {job : Job} {p : Store × Task}
    (hs : Inv s) (h_at : s.taskAt i = .installing phase job)
    (h_parent : phase = .persisting → s.store.pointsToRow
      ((job.existing.map (·.id)).getD s.store.nextId) job.dependencyOf = true)
    (h : s.store.installGoesOn phase job = some p) : Turn s i p := by
  cases phase with
  | preparing =>
    obtain rfl := Option.some.inj h
    have h_job := hs.fits i
    have h_apart := hs.apart i
    have h_old := hs.old i
    rw [h_at] at h_job h_apart h_old
    have h_fits : job.Fits s.store .downloading :=
      ⟨h_job.existing, h_job.project, h_job.target, h_job.temp, h_job.apart, h_job.safe, by simp,
        by simp, by simp, by simp⟩
    refine turn_same hs (fun j h_j => ?_) h_fits h_old (by simp [h_at, Task.dropped])
      (by simp [h_at, Task.leftovers])
    have h_j' := h_apart j h_j.symm
    exact ⟨h_j'.claims, h_j'.names, h_j'.creates⟩
  | downloading => exact absurd h (by simp [Store.installGoesOn])
  | droppingOld => exact turn_droppingOld hs h_at h
  | droppingTarget =>
    obtain rfl := Option.some.inj h
    exact turn_droppingTarget hs h_at
  | moving =>
    obtain rfl := Option.some.inj h
    exact turn_moving hs h_at
  | persisting =>
    obtain rfl := Option.some.inj h
    exact turn_persisting hs h_at (h_parent rfl)

/-- `removeFile` is over, and the dependants are read. -/
theorem turn_unlinked {i : Nat} {cascade : Bool} {visited : List RecordId}
    {record : ContentRecord} {stack : List Frame} (hs : Inv s)
    (h_at : s.taskAt i = .unlinked cascade visited record stack)
    (h_free : cascade = true → ∀ d ∈ s.store.listDependants record.id, s.isFree i d.id = true) :
    Turn s i (s.store.removalGoesOn visited
      (⟨record.id, if cascade then s.store.listDependants record.id else []⟩ :: stack)) := by
  obtain ⟨h_gone, h_seen, h_stack⟩ : s.store.Gone record.id ∧ record.id ∈ visited ∧
      StackFits s.store visited stack := by
    have h_fits := hs.fits i
    rw [h_at] at h_fits
    exact h_fits
  have h_claims : ∀ id ∈ record.id :: Task.stackClaims stack, id ∈ (s.taskAt i).claims := by
    rw [h_at]
    exact fun _ h => h
  have h_listed : ∀ d ∈ (if cascade then s.store.listDependants record.id else []),
      d ∈ s.store.records ∧ s.isFree i d.id = true := by
    intro d h_d
    cases cascade with
    | false => exact absurd h_d (by simp)
    | true => exact ⟨(List.mem_filter.mp h_d).1, h_free rfl d h_d⟩
  refine turn_removalGoesOn hs ⟨fun f h_f => ?_, fun f h_f => ?_, fun f h_f d h_d => ?_⟩
    (fun id h_id => ?_) (fun f h_f => ?_) (fun id h_id => ?_) (by simp [h_at, Task.leftovers])
  · rcases List.mem_cons.mp h_f with rfl | h_f
    · exact h_gone
    · exact h_stack.gone f h_f
  · rcases List.mem_cons.mp h_f with rfl | h_f
    · exact h_seen
    · exact h_stack.seen f h_f
  · rcases List.mem_cons.mp h_f with rfl | h_f
    · exact .inr (tracked_of_mem (h_listed d h_d).1)
    · exact h_stack.pending f h_f d h_d
  · obtain ⟨f, h_f, h_eq⟩ := mem_stackClaims.mp h_id
    have h_known : ∀ k ∈ (s.taskAt i).claims, k < s.store.nextId ∧
        ∀ j, j ≠ i → k ∉ (s.taskAt j).claims := fun k h_k =>
      ⟨hs.old i k h_k, fun j h_j => (hs.apart i j h_j.symm).claims k h_k⟩
    rcases List.mem_cons.mp h_f with rfl | h_f
    · rcases h_eq with rfl | ⟨d, h_d, rfl⟩
      · exact h_known _ (h_claims _ List.mem_cons_self)
      · obtain ⟨h_mem, h_isFree⟩ := h_listed d h_d
        exact ⟨hs.keyed.fresh d h_mem, not_mem_claims_of_isFree h_isFree⟩
    · have h_mem := mem_stackClaims.mpr ⟨f, h_f, h_eq⟩
      exact h_known _ (h_claims _ (List.mem_cons_of_mem _ h_mem))
  · rcases List.mem_cons.mp h_f with rfl | h_f
    · exact h_claims _ List.mem_cons_self
    · have h_mem := mem_stackClaims.mpr ⟨f, h_f, .inl rfl⟩
      exact h_claims _ (List.mem_cons_of_mem _ h_mem)
  · rw [h_at] at h_id
    exact h_id

theorem turn_returned {i : Nat} {visited : List RecordId} {stack : List Frame} (hs : Inv s)
    (h_at : s.taskAt i = .returned visited stack) :
    Turn s i (s.store.removalGoesOn visited stack) := by
  have h_fits := hs.fits i
  have h_old := hs.old i
  have h_apart := hs.apart i
  rw [h_at] at h_fits h_old h_apart
  refine turn_removalGoesOn hs h_fits
    (fun id h_id => ⟨h_old id h_id, fun j h_j => (h_apart j h_j.symm).claims id h_id⟩)
    (fun f h_f => ?_) ?_ (by simp [h_at, Task.leftovers])
  · rw [h_at]
    exact mem_stackClaims.mpr ⟨f, h_f, .inl rfl⟩
  · rw [h_at]
    exact fun _ h => h

/-- The removal of a record begins. -/
theorem turn_removalBegins {i : Nat} {record : ContentRecord} {cascade : Bool} (hs : Inv s)
    (h_at : s.taskAt i = .removalRequested record cascade) :
    Turn s i (s.store, Store.beginRemoval cascade [] record []) := by
  have h_fits := hs.fits i
  have h_old := hs.old i
  have h_apart := hs.apart i
  rw [h_at] at h_fits h_old h_apart
  have h_begun : (Store.beginRemoval cascade [] record []).Fits s.store :=
    ⟨h_fits, List.mem_cons_self, by simp, by simp, by simp⟩
  exact turn_same hs
    (fun j h_j => ⟨(h_apart j h_j.symm).claims, by simp [Store.beginRemoval, Task.names],
      by simp [Store.beginRemoval, Task.creates]⟩) h_begun h_old
    (by simp [h_at, Task.dropped]) (by simp [h_at, Task.leftovers])

/-- The task that goes on. -/
def Event.task : Event → Option Nat
  | .install | .update _ | .remove _ _ => none
  | .answers i _ _ _ _ | .downloads i _ | .completes i | .throws i => some i

/-- A step inside the condition is the turn of a task. -/
theorem turn_of_step {env : Env} {e : Event} {i : Nat} (hs : Inv s) (h_task : e.task = some i)
    (h_careful : careful s e = true) (h : step env s e = some s') :
    ∃ p, s' = s.resume i p ∧ s.taskAt i ≠ .done ∧ Turn s i p := by
  cases e with
  | install | update id | remove id cascade => exact absurd h_task (by simp [Event.task])
  | answers k project version dependencies now =>
    obtain rfl := Option.some.inj h_task
    simp only [step] at h
    split at h
    · rename_i existing h_at
      have h_existing : ∀ e ∈ existing, s.store.Tracked e := by
        have h_fits := hs.fits k
        rw [h_at] at h_fits
        exact h_fits
      have h_both := turn_answers hs existing version none dependencies now (.inl ⟨existing, h_at⟩)
        h_existing fun job h_job => by
          simpa [careful, State.begun, h_at, h_job] using h_careful
      split at h
      · exact ⟨_, (Option.some.inj h).symm, by simp [h_at], h_both.2⟩
      · exact ⟨_, (Option.some.inj h).symm, by simp [h_at], h_both.1⟩
    · rename_i main dependency rest h_at
      have h_both := turn_answers hs none version (some main) rest now (.inr ⟨main, _, h_at⟩)
        (by simp) fun job h_job => by
          simpa [careful, State.begun, h_at, h_job] using h_careful
      split at h
      · exact ⟨_, (Option.some.inj h).symm, by simp [h_at], h_both.2⟩
      · exact ⟨_, (Option.some.inj h).symm, by simp [h_at], h_both.1⟩
    · exact absurd h (by simp)
  | downloads k bytes =>
    obtain rfl := Option.some.inj h_task
    simp only [step] at h
    split at h
    · rename_i job h_at
      split at h
      · exact ⟨_, (Option.some.inj h).symm, by simp [h_at], turn_downloads hs h_at⟩
      · exact ⟨_, (Option.some.inj h).symm, by simp [h_at], turn_ends hs ⟨rfl, rfl, rfl⟩ trivial
          (by simp [h_at, Task.dropped]) (by simp [h_at, Task.leftovers])⟩
    · exact absurd h (by simp)
  | completes k =>
    obtain rfl := Option.some.inj h_task
    simp only [step] at h
    split at h
    · rename_i phase job h_at
      obtain ⟨p, h_p, rfl⟩ := Option.map_eq_some_iff.mp h
      refine ⟨p, rfl, by simp [h_at], turn_installGoesOn hs h_at (fun h_phase => ?_) h_p⟩
      subst h_phase
      simpa [careful, h_at] using h_careful
    · rename_i record cascade h_at
      exact ⟨_, (Option.some.inj h).symm, by simp [h_at], turn_removalBegins hs h_at⟩
    · rename_i cascade visited record stack h_at
      exact ⟨_, (Option.some.inj h).symm, by simp [h_at], turn_unlinking hs h_at⟩
    · rename_i cascade visited record stack h_at
      refine ⟨_, (Option.some.inj h).symm, by simp [h_at],
        turn_unlinked hs h_at fun h_cascade d h_d => ?_⟩
      have h_all : ∀ d ∈ s.store.listDependants record.id, s.isFree k d.id = true := by
        simpa [careful, h_at, h_cascade] using h_careful
      exact h_all d h_d
    · rename_i visited stack h_at
      exact ⟨_, (Option.some.inj h).symm, by simp [h_at], turn_returned hs h_at⟩
    · exact absurd h (by simp)
  | throws k =>
    obtain rfl := Option.some.inj h_task
    have h_ends : (s.taskAt k).dropped = [] → (s.taskAt k).leftovers = [] →
        Turn s k (s.store, .done) := turn_ends hs ⟨rfl, rfl, rfl⟩ trivial
    simp only [step] at h
    split at h
    · rename_i h_at
      exact ⟨_, (Option.some.inj h).symm, by simp [h_at],
        h_ends (by simp [h_at, Task.dropped]) (by simp [h_at, Task.leftovers])⟩
    · rename_i h_at
      exact ⟨_, (Option.some.inj h).symm, by simp [h_at],
        h_ends (by simp [h_at, Task.dropped]) (by simp [h_at, Task.leftovers])⟩
    · rename_i h_at
      exact ⟨_, (Option.some.inj h).symm, by simp [h_at],
        h_ends (by simp [h_at, Task.dropped]) (by simp [h_at, Task.leftovers])⟩
    · rename_i cascade visited record stack h_at
      have h_stack : stack = [] := by simpa [careful, h_at] using h_careful
      exact ⟨_, (Option.some.inj h).symm, by simp [h_at],
        h_ends (by simp [h_at, Task.dropped, h_stack]) (by simp [h_at, Task.leftovers])⟩
    · rename_i phase job h_at
      have h_phase : phase = .preparing ∨ phase = .downloading := by
        simpa [careful, h_at] using h_careful
      split at h
      · exact absurd h (by simp)
      · refine ⟨_, (Option.some.inj h).symm, by simp [h_at], ?_⟩
        rcases h_phase with rfl | rfl
        · exact h_ends (by simp [h_at, Task.dropped]) (by simp [h_at, Task.leftovers])
        · exact h_ends (by simp [h_at, Task.dropped]) (by simp [h_at, Task.leftovers])
    · exact absurd h (by simp)

/-- A request begins its task, and table and folder stay as they are. -/
theorem Inv.request {env : Env} {e : Event} (hs : Inv s) (h_task : e.task = none)
    (h_careful : careful s e = true) (h : step env s e = some s') :
    Inv s' ∧ s'.store = s.store := by
  cases e with
  | install =>
    obtain rfl := Option.some.inj h
    exact ⟨hs.push ⟨rfl, rfl⟩ (by simp [Task.claims]) (by simp [Task.Fits]), rfl⟩
  | update id =>
    obtain ⟨record, h_found, rfl⟩ := Option.map_eq_some_iff.mp h
    exact ⟨hs.push_found h_found h_careful rfl ⟨rfl, rfl⟩ (by simp [Task.Fits]), rfl⟩
  | remove id cascade =>
    obtain ⟨record, h_found, rfl⟩ := Option.map_eq_some_iff.mp h
    exact ⟨hs.push_found h_found h_careful rfl ⟨rfl, rfl⟩ fun h_tracked => h_tracked, rfl⟩
  | answers k project version dependencies now | downloads k bytes | completes k | throws k =>
    exact absurd h_task (by simp [Event.task])

/-- The records of the task that the event is a step of. -/
def State.concerned (s : State) (e : Event) : List RecordId :=
  (e.task.map fun i => (s.taskAt i).claims).getD []

/-- One step inside the condition keeps the invariant, and the files of all records but those
    of its task. -/
theorem Inv.step {env : Env} {e : Event} (hs : Inv s) (h_careful : careful s e = true)
    (h : step env s e = some s') :
    Inv s' ∧ ∀ r ∈ s.store.records, r.id ∉ s.concerned e →
      s'.store.folder r.fileName = s.store.folder r.fileName := by
  cases h_task : e.task with
  | none =>
    obtain ⟨h_inv, h_store⟩ := hs.request h_task h_careful h
    exact ⟨h_inv, fun r _ _ => by rw [h_store]⟩
  | some i =>
    obtain ⟨p, rfl, h_at, h_turn⟩ := turn_of_step hs h_task h_careful h
    refine ⟨hs.resume h_at h_turn, fun r h_r h_other => ?_⟩
    have h_claim : r.id ∉ (s.taskAt i).claims := by
      simpa [State.concerned, h_task] using h_other
    exact h_turn.changes.spares hs.keyed (hs.fits i) h_r h_claim

end

theorem inv_of_init {env : Env} {s : State} (h : (content env).init s) : Inv s := by
  obtain ⟨h_tasks, h_sync, h_ids, h_projects, h_rows⟩ := h
  have h_done : ∀ i, s.taskAt i = .done := fun i => by
    rw [State.taskAt, h_tasks]
    exact Suspended.get_nil _ i
  refine ⟨⟨h_ids, h_projects, h_sync.names, fun r h_r => (h_rows r h_r).1,
    fun r h_r => (h_rows r h_r).2⟩, fun i j _ => ?_, fun i => ?_, fun i id h_id => ?_,
    fun r h_r => .inl (h_sync.intact r h_r), fun name file h_file h_placed =>
      .inl (h_sync.placed name file h_file h_placed)⟩
  · rw [h_done i, h_done j]
    exact ⟨by simp [Task.claims], by simp [Task.names], by simp [Task.creates]⟩
  · rw [h_done i]
    trivial
  · rw [h_done i] at h_id
    exact absurd h_id (by simp [Task.claims])

theorem Inv.inSync {s : State} (hs : Inv s) (h_quiet : s.quiet = true) : s.store.InSync := by
  have h_done : ∀ i, s.taskAt i = .done := by
    intro i
    by_contra h_ne
    have h_lt := Suspended.lt_of_get_ne Task.done h_ne
    have h_at : s.taskAt i = s.tasks[i] := by simp [State.taskAt, Suspended.get, h_lt]
    have h_all := List.all_eq_true.mp h_quiet _ (List.getElem_mem h_lt)
    exact h_ne (h_at.trans (by simpa using h_all))
  refine ⟨fun r h_r => ?_, hs.keyed.names, fun name file h_file h_placed => ?_⟩
  · rcases hs.intact r h_r with h_intact | ⟨i, h_drop⟩
    · exact h_intact
    · rw [h_done i] at h_drop
      exact absurd h_drop (by simp [Task.dropped])
  · rcases hs.placed name file h_file h_placed with h_record | ⟨i, h_left⟩
    · exact h_record
    · rw [h_done i] at h_left
      exact absurd h_left (by simp [Task.leftovers])

/-! ## Runs -/

/-- A server without managed content. -/
def bare : State := ⟨⟨[], fun _ => none, 0, []⟩, []⟩

theorem init_bare (env : Env) : (content env).init bare :=
  ⟨rfl, ⟨by simp [bare], by simp [bare, UniqueCol], by simp [bare]⟩, by simp [bare, UniqueCol],
    by simp [bare, UniqueCol], by simp [bare]⟩

/-- Files without hashes need none. -/
def noHashes : Env := ⟨fun _ _ => ""⟩

def release (projectId versionId filename : String) : ModrinthVersion :=
  ⟨versionId, projectId, [⟨filename, true, "https://cdn/" ++ filename, none, none⟩]⟩

/-- Everything the task `i` awaits, from the answer of Modrinth to the row. -/
def installs (i : Nat) (version : ModrinthVersion) (dependencies : List Dependency)
    (bytes : Bytes) : List Event :=
  [.answers i ⟨version.projectId⟩ version dependencies 0, .completes i, .downloads i bytes,
   .completes i, .completes i, .completes i, .completes i]

/-- A project and what it depends on, its update, and the removal of the dependency. -/
def installAndUpdate : List Event :=
  [.install] ++ installs 0 (release "map" "m1" "map-1.jar") [⟨"core", "c1"⟩] [1] ++
    installs 0 (release "core" "c1" "core.jar") [] [2] ++
    [.update 0] ++ installs 1 (release "map" "m2" "map-2.jar") [] [3] ++
    [.remove 1 true, .completes 2, .completes 2, .completes 2, .completes 2]

/-- Two projects whose files have one name. -/
def collision : List Event :=
  [.install] ++ installs 0 (release "map" "m1" "plugin.jar") [] [1] ++
    [.install] ++ installs 1 (release "shop" "s1" "plugin.jar") [] [2]

/-- Of two installs of one project that overlap the second finds no record, its row is refused
    by the key of the table, and its file stays. -/
example : (((content noHashes).run bare ([.install, .install,
    .answers 1 ⟨"map"⟩ (release "map" "m2" "map-2.jar") [] 0] ++
    installs 0 (release "map" "m1" "map-1.jar") [] [1] ++ [.completes 1, .downloads 1 [2],
    .completes 1, .completes 1, .completes 1, .completes 1])).map fun s =>
      (s.quiet, s.store.records.map (·.fileName), s.store.folder "map-2.jar")) =
    some (true, ["map-1.jar"], some ⟨[2], true⟩) := by
  decide +kernel

/-- An update whose `rename` throws has removed the old file by then. -/
example : (((content noHashes).run bare ([.install] ++
    installs 0 (release "map" "m1" "map-1.jar") [] [1] ++ [.update 0,
    .answers 1 ⟨"map"⟩ (release "map" "m2" "map-2.jar") [] 0, .completes 1, .downloads 1 [2],
    .completes 1, .completes 1, .throws 1])).map fun s =>
      (s.quiet, s.store.records.map (·.fileName), s.store.folder "map-1.jar")) =
    some (true, ["map-1.jar"], none) := by
  decide +kernel

end Kubek.Content
