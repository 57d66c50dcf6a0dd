/-
  Kubek.Content.Dependants

  Whose dependency a record is: `executeInstallTask` of plugins/modrinth-content.service.ts,
  `installSingle` and `removeRecordWithFile` of modrinth/content-installer.ts and
  dependency-resolver.ts, for tasks that run one after another.

  A row has one parent, that of the install that wrote it last, and an install that finds its
  version there writes nothing. So a project the user chose becomes a dependency, a shared
  one stays with its first owner, and removing the owner takes both away
  (`wanted_records_removed`). While installs only touch rows that nobody else wants, a
  removal with its dependants spares whatever is still wanted (`removal_spares_wanted`).

  `chosen` and `wants` are history: which records an install was asked for, and which record
  was resolved as a dependency of which.
-/

import Kubek.Content.Installer
import Mathlib.Data.Finset.Card

namespace Kubek.Content

open KeyedRows Transition

/-! ## Dependencies -/

/-- What `resolveDependencies` is asked for, with the answers of Modrinth: a look-up that
    throws finds no version. -/
structure DependencyRequest where
  installRequired : Bool := false
  explicit : List Dependency := []
  required : List (String × Option String) := []
  latestVersionOf : String → Option String := fun _ => none

def Dependency.key (dep : Dependency) : String := dep.projectId ++ ":" ++ dep.versionId

/-- `add`. -/
def addDependency (resolved : List Dependency) (dep : Dependency) : List Dependency :=
  if resolved.any (·.key = dep.key) then resolved else resolved ++ [dep]

/-- `resolveDependencies`. -/
def resolveDependencies (request : DependencyRequest) : List Dependency :=
  let resolved := request.explicit.foldl addDependency []
  if request.installRequired then
    request.required.foldl (fun resolved dep =>
      if request.explicit.any (·.projectId = dep.1) then resolved
      else
        match (dep.2.filter (· ≠ "")).or ((request.latestVersionOf dep.1).filter (· ≠ "")) with
        | some versionId => addDependency resolved ⟨dep.1, versionId⟩
        | none => resolved) resolved
  else resolved

/-! ## Installing -/

/-- A version that was looked up, and the hash its download ends with; none where the
    download or a change of the folder throws. -/
structure Fetched where
  version : ModrinthVersion
  download : Option (Option String)

namespace Store

def ids (s : Store) : List RecordId := s.records.map (·.id)

/-- The row that `installSingle` finds. -/
def existing (s : Store) (override : Option ContentRecord) (version : ModrinthVersion) :
    Option ContentRecord := override.or (s.findByProject version.projectId)

/-- `installSingle` on the table, none when it throws. -/
def installSingle (s : Store) (override : Option ContentRecord) (fetched : Fetched)
    (dependencyOf : Option RecordId) : Option (Store × RecordId) :=
  let version := fetched.version
  match (s.existing override version).filter (·.versionId = version.id) with
  | some current => some (s, current.id)
  | none =>
      match pickPrimaryFile version, fetched.download with
      | some file, some fileHash =>
          if file.url = "" || !isSafeFileName file.filename then none
          else
            match s.existing override version with
            | some row => s.update row.id version.id file.filename fileHash dependencyOf
            | none => s.create version.projectId version.id file.filename fileHash dependencyOf
      | _, _ => none

/-- `removeRecordWithFile`, on the table and the ids visited; none where the fuel ran out. -/
def removeRecordWithFile (cascade : Bool) :
    Nat → ContentRecord → Store × List RecordId → Option (Store × List RecordId)
  | 0, _, _ => none
  | fuel + 1, record, (s, visited) =>
      if record.id ∈ visited then some (s, visited)
      else
        let s := s.removeFile record.fileName
        let dependants := if cascade then s.listDependants record.id else []
        let removed := dependants.foldlM
          (fun p dependant => removeRecordWithFile cascade fuel dependant p)
          (s, record.id :: visited)
        removed.map fun p => (p.1.delete record.id, p.2)

end Store

/-! ## Runs -/

structure History where
  store : Store
  chosen : List RecordId := []
  wants : List (RecordId × RecordId) := []

namespace History

/-- `installSingle` with its trace: `owner` depends on the record, or the user chose it. -/
def installSingle (h : History) (override : Option ContentRecord) (fetched : Fetched)
    (owner : Option RecordId) (choice : Bool) : Option (History × RecordId) :=
  (h.store.installSingle override fetched owner).map fun p =>
    ({ store := p.1
       chosen := if choice then h.chosen ++ [p.2] else h.chosen
       wants := owner.elim h.wants fun main => h.wants ++ [(main, p.2)] }, p.2)

/-- The loop over the dependencies, which ends where a look-up or an install throws. -/
def installDependencies (main : RecordId) : History → List (Option Fetched) → History
  | h, [] => h
  | h, none :: _ => h
  | h, some fetched :: rest =>
      match h.installSingle none fetched (some main) false with
      | none => h
      | some p => installDependencies main p.1 rest

/-- `executeInstallTask`. -/
def executeInstallTask (h : History) (override : Option ContentRecord) (main : Fetched)
    (dependencies : List (Option Fetched)) (choice : Bool) : History :=
  match h.installSingle override main none choice with
  | none => h
  | some p => installDependencies p.2 p.1 dependencies

inductive Event
  | install (main : Fetched) (request : DependencyRequest)
      (context : Dependency → Option Fetched)
  | update (id : RecordId) (main : Fetched) (request : DependencyRequest)
      (context : Dependency → Option Fetched)
  | remove (id : RecordId) (cascade : Bool)

/-- One task after another. -/
def step (h : History) : Event → Option History
  | .install main request context =>
      some (h.executeInstallTask none main ((resolveDependencies request).map context) true)
  | .update id main request context =>
      (h.store.findById id).map fun record =>
        h.executeInstallTask (some record) main ((resolveDependencies request).map context) false
  | .remove id cascade =>
      (h.store.findById id).bind fun record =>
        (Store.removeRecordWithFile cascade (h.store.records.length + 1) record
          (h.store, [])).map fun p => { h with store := p.1 }

end History

/-- The table is empty at first. -/
def history : Machine History History.Event where
  init h := h.store.records = [] ∧ h.chosen = [] ∧ h.wants = []
  step := History.step

/-! ## The condition -/

namespace History

/-- The install writes no row that somebody else wants, and leaves none as it is that it ought
    to take over. -/
def leavesOwners (h : History) (override : Option ContentRecord) (fetched : Fetched)
    (owner : Option RecordId) (choice : Bool) : Bool :=
  match h.store.existing override fetched.version with
  | none => true
  | some row =>
      if row.versionId = fetched.version.id then
        match owner with
        | some main => row.dependencyOf = none || row.dependencyOf = some main
        | none => !choice || row.dependencyOf = none
      else
        match owner with
        | some main =>
            row.id ∉ h.chosen && h.wants.all fun want =>
              want.2 ≠ row.id || want.1 = main || want.1 ∉ h.store.ids
        | none => true

def carefulDependencies (main : RecordId) : History → List (Option Fetched) → Bool
  | _, [] => true
  | _, none :: _ => true
  | h, some fetched :: rest =>
      h.leavesOwners none fetched (some main) false &&
        match h.installSingle none fetched (some main) false with
        | none => true
        | some p => carefulDependencies main p.1 rest

def carefulTask (h : History) (override : Option ContentRecord) (main : Fetched)
    (dependencies : List (Option Fetched)) (choice : Bool) : Bool :=
  h.leavesOwners override main none choice &&
    match h.installSingle override main none choice with
    | none => true
    | some p => carefulDependencies p.2 p.1 dependencies

/-- Each install of the task leaves the rows of others alone. -/
def careful (h : History) : Event → Bool
  | .install main request context =>
      h.carefulTask none main ((resolveDependencies request).map context) true
  | .update id main request context =>
      (h.store.findById id).all fun record =>
        h.carefulTask (some record) main ((resolveDependencies request).map context) false
  | .remove _ _ => true

end History

/-! ## A removal -/

namespace Store

/-- What removals of `roots` do, from the ids visited before to those visited after: the rows
    visited on the way are gone, each of them a root or a dependant of another. -/
structure Cascade (roots : List RecordId) (a b : Store) (visited visited' : List RecordId) :
    Prop where
  nextId : b.nextId = a.nextId
  unique : UniqueCol (·.id) a.records → UniqueCol (·.id) b.records
  grows : visited ⊆ visited'
  visits : roots ⊆ visited'
  ids : ∀ id, id ∈ b.ids ↔ id ∈ a.ids ∧ (id ∈ visited ∨ id ∉ visited')
  links : ∀ r' ∈ b.records, ∃ r ∈ a.records, r.id = r'.id ∧
    (r'.dependencyOf = none ∨ r'.dependencyOf = r.dependencyOf)
  cause : ∀ id ∈ visited', id ∈ visited ∨ id ∈ roots ∨
    ∃ p ∈ visited', p ∉ visited ∧ ∃ r ∈ a.records, r.id = id ∧ r.dependencyOf = some p

section

variable {a b c : Store} {roots roots' visited visited' visited'' : List RecordId}

/-- Nothing is removed. -/
theorem Cascade.of_records (h : b.records = a.records) (h_next : b.nextId = a.nextId)
    (visited : List RecordId) : Cascade [] a b visited visited where
  nextId := h_next
  unique := fun h_unique => h ▸ h_unique
  grows := List.Subset.refl _
  visits := List.nil_subset _
  ids := fun id => by
    rw [show b.ids = a.ids from congrArg (List.map ContentRecord.id) h]
    exact ⟨fun h_id => ⟨h_id, Classical.em _⟩, fun h_id => h_id.1⟩
  links := fun r h_r => ⟨r, h ▸ h_r, rfl, .inr rfl⟩
  cause := fun _ h_id => .inl h_id

theorem Cascade.trans (h : Cascade roots a b visited visited')
    (h' : Cascade roots' b c visited' visited'') :
    Cascade (roots ++ roots') a c visited visited'' where
  nextId := h'.nextId.trans h.nextId
  unique := fun h_unique => h'.unique (h.unique h_unique)
  grows := fun id h_id => h'.grows (h.grows h_id)
  visits := List.append_subset.mpr ⟨fun id h_id => h'.grows (h.visits h_id), h'.visits⟩
  ids := fun id => by
    rw [h'.ids, h.ids]
    have h_first := @h.grows id
    have h_second := @h'.grows id
    tauto
  links := fun r'' h_r'' => by
    obtain ⟨r', h_r', h_id', h_link'⟩ := h'.links r'' h_r''
    obtain ⟨r, h_r, h_id, h_link⟩ := h.links r' h_r'
    refine ⟨r, h_r, h_id.trans h_id', ?_⟩
    obtain h_none | h_same := h_link'
    · exact .inl h_none
    · rw [h_same]
      exact h_link
  cause := fun id h_id => by
    obtain h_old | h_root | ⟨p, h_p, h_fresh, r', h_r', h_id', h_parent⟩ := h'.cause id h_id
    · obtain h_old | h_root | ⟨p, h_p, h_cause⟩ := h.cause id h_old
      · exact .inl h_old
      · exact .inr (.inl (List.mem_append_left _ h_root))
      · exact .inr (.inr ⟨p, h'.grows h_p, h_cause⟩)
    · exact .inr (.inl (List.mem_append_right _ h_root))
    · obtain ⟨r, h_r, h_same, h_link⟩ := h.links r' h_r'
      rw [h_parent] at h_link
      obtain h_none | h_link := h_link
      · cases h_none
      · exact .inr (.inr ⟨p, h_p, fun h_mem => h_fresh (h.grows h_mem), r, h_r,
          h_same.trans h_id', h_link.symm⟩)

theorem ids_delete (a : Store) (id : RecordId) : (a.delete id).ids = a.ids.filter (· ≠ id) := by
  show List.map _ (List.map _ _) = (a.records.map _).filter _
  rw [List.map_map, List.filter_map]
  refine List.map_congr_left fun r _ => ?_
  show (if r.dependencyOf = some id then { r with dependencyOf := none } else r).id = r.id
  split <;> rfl

/-- The dependants go before the record itself. -/
theorem Cascade.delete {record : ContentRecord} {dependants : List ContentRecord}
    (h_fresh : record.id ∉ visited)
    (h_dependants : ∀ d ∈ dependants, d ∈ a.records ∧ d.dependencyOf = some record.id)
    (h : Cascade (dependants.map (·.id)) a b (record.id :: visited) visited') :
    Cascade [record.id] a (b.delete record.id) visited visited' where
  nextId := h.nextId
  unique := fun h_unique => by
    show ((b.delete record.id).ids).Nodup
    rw [ids_delete]
    exact List.Nodup.filter _ (h.unique h_unique)
  grows := fun id h_id => h.grows (List.mem_cons_of_mem _ h_id)
  visits := fun _ h_id => List.mem_singleton.mp h_id ▸ h.grows List.mem_cons_self
  ids := fun id => by
    rw [ids_delete, List.mem_filter, h.ids, List.mem_cons, decide_eq_true_iff]
    have h_own : record.id ∈ visited' := h.grows List.mem_cons_self
    constructor
    · rintro ⟨⟨h_a, h_kept⟩, h_ne⟩
      exact ⟨h_a, h_kept.imp_left fun h_mem => h_mem.resolve_left h_ne⟩
    · rintro ⟨h_a, h_kept⟩
      refine ⟨⟨h_a, h_kept.imp_left .inr⟩, ?_⟩
      rintro rfl
      exact h_kept.elim h_fresh fun h_not => h_not h_own
  links := fun r'' h_r'' => by
    obtain ⟨r', h_r', rfl⟩ := List.mem_map.mp h_r''
    obtain ⟨r, h_r, h_id, h_link⟩ := h.links r' (List.mem_of_mem_filter h_r')
    split
    · exact ⟨r, h_r, h_id, .inl rfl⟩
    · exact ⟨r, h_r, h_id, h_link⟩
  cause := fun id h_id => by
    obtain h_old | h_root | ⟨p, h_p, h_new, h_cause⟩ := h.cause id h_id
    · obtain rfl | h_old := List.mem_cons.mp h_old
      · exact .inr (.inl (List.mem_singleton_self _))
      · exact .inl h_old
    · obtain ⟨d, h_d, rfl⟩ := List.mem_map.mp h_root
      exact .inr (.inr ⟨record.id, h.grows List.mem_cons_self, h_fresh, d,
        (h_dependants d h_d).1, rfl, (h_dependants d h_d).2⟩)
    · exact .inr (.inr ⟨p, h_p, fun h_mem => h_new (List.mem_cons_of_mem _ h_mem), h_cause⟩)

end

/-- The rows that were not visited yet. -/
def unvisited (s : Store) (visited : List RecordId) : Finset RecordId :=
  s.ids.toFinset \ visited.toFinset

theorem mem_unvisited {s : Store} {visited : List RecordId} {id : RecordId} :
    id ∈ s.unvisited visited ↔ id ∈ s.ids ∧ id ∉ visited := by
  rw [unvisited, Finset.mem_sdiff, List.mem_toFinset, List.mem_toFinset]

theorem unvisited_card_le (s : Store) : (s.unvisited []).card ≤ s.records.length := by
  refine (Finset.card_le_card Finset.sdiff_subset).trans ?_
  refine (List.toFinset_card_le _).trans (Nat.le_of_eq ?_)
  exact List.length_map _

/-- Cascades leave nothing new to visit. -/
theorem Cascade.unvisited_subset {roots visited visited' : List RecordId} {a b : Store}
    (h : Cascade roots a b visited visited') : b.unvisited visited' ⊆ a.unvisited visited := by
  intro id h_id
  obtain ⟨h_b, h_not⟩ := mem_unvisited.mp h_id
  exact mem_unvisited.mpr ⟨((h.ids id).mp h_b).1, fun h_mem => h_not (h.grows h_mem)⟩

/-- A removal ends as soon as there is fuel for every row that was not visited. -/
theorem removeRecordWithFile_spec (cascade : Bool) (fuel : Nat) :
    ∀ (record : ContentRecord) (s : Store) (visited : List RecordId),
      (s.unvisited visited).card < fuel → record.id ∈ visited ∨ record.id ∈ s.ids →
      ∃ s' visited', removeRecordWithFile cascade fuel record (s, visited) = some (s', visited') ∧
        Cascade [record.id] s s' visited visited' := by
  induction fuel with
  | zero => exact fun _ _ _ h => absurd h (Nat.not_lt_zero _)
  | succ fuel ih =>
    -- the loop over the dependants, by the removals of the single ones
    have h_loop : ∀ (dependants : List ContentRecord) (s : Store) (visited : List RecordId),
        (s.unvisited visited).card < fuel →
        (∀ d ∈ dependants, d.id ∈ visited ∨ d.id ∈ s.ids) →
        ∃ s' visited', dependants.foldlM
            (fun p dependant => removeRecordWithFile cascade fuel dependant p) (s, visited) =
          some (s', visited') ∧ Cascade (dependants.map (·.id)) s s' visited visited' := by
      intro dependants
      induction dependants with
      | nil => exact fun s visited _ _ => ⟨s, visited, rfl, Cascade.of_records rfl rfl visited⟩
      | cons d dependants ih_loop =>
        intro s visited h_fuel h_known
        obtain ⟨s₁, visited₁, h_first, h_cascade⟩ := ih d s visited h_fuel
          (h_known d List.mem_cons_self)
        have h_fuel₁ : (s₁.unvisited visited₁).card < fuel :=
          (Finset.card_le_card h_cascade.unvisited_subset).trans_lt h_fuel
        obtain ⟨s₂, visited₂, h_rest, h_cascade'⟩ := ih_loop s₁ visited₁ h_fuel₁ fun d' h_d' => by
          by_cases h_visited : d'.id ∈ visited₁
          · exact .inl h_visited
          · refine .inr ((h_cascade.ids _).mpr ⟨?_, .inr h_visited⟩)
            exact (h_known d' (List.mem_cons_of_mem _ h_d')).resolve_left fun h_mem =>
              h_visited (h_cascade.grows h_mem)
        refine ⟨s₂, visited₂, ?_, h_cascade.trans h_cascade'⟩
        rw [List.foldlM_cons, h_first]
        exact h_rest
    intro record s visited h_fuel h_known
    rw [removeRecordWithFile]
    by_cases h_visited : record.id ∈ visited
    · rw [if_pos h_visited]
      refine ⟨s, visited, rfl, ?_⟩
      exact { @Cascade.of_records s s rfl rfl visited with
        visits := fun _ h_id => List.mem_singleton.mp h_id ▸ h_visited
        cause := fun _ h => .inl h }
    · rw [if_neg h_visited]
      have h_row : record.id ∈ s.ids := h_known.resolve_left h_visited
      have h_records : (s.removeFile record.fileName).records = s.records := by
        rw [removeFile]
        split <;> rfl
      have h_next : (s.removeFile record.fileName).nextId = s.nextId := by
        rw [removeFile]
        split <;> rfl
      have h_smaller : ((s.removeFile record.fileName).unvisited (record.id :: visited)).card <
          fuel := by
        refine Nat.lt_of_lt_of_le (Finset.card_lt_card ?_) (Nat.le_of_lt_succ h_fuel)
        refine (Finset.ssubset_iff_of_subset fun id h_id => ?_).mpr ⟨record.id, ?_, ?_⟩
        · obtain ⟨h_id, h_not⟩ := mem_unvisited.mp h_id
          rw [ids, h_records] at h_id
          exact mem_unvisited.mpr ⟨h_id, fun h_mem => h_not (List.mem_cons_of_mem _ h_mem)⟩
        · exact mem_unvisited.mpr ⟨h_row, h_visited⟩
        · exact fun h_mem => (mem_unvisited.mp h_mem).2 List.mem_cons_self
      have h_dependants : ∀ d ∈ if cascade then
          (s.removeFile record.fileName).listDependants record.id else [],
          d ∈ s.records ∧ d.dependencyOf = some record.id := by
        intro d h_d
        split at h_d
        · obtain ⟨h_mem, h_parent⟩ := List.mem_filter.mp h_d
          exact ⟨h_records ▸ h_mem, of_decide_eq_true h_parent⟩
        · cases h_d
      obtain ⟨s', visited', h_run, h_cascade⟩ := h_loop _ _ (record.id :: visited) h_smaller
        fun d h_d => .inr <| by
          rw [ids, h_records]
          exact List.mem_map_of_mem (h_dependants d h_d).1
      refine ⟨s'.delete record.id, visited', ?_, ?_⟩
      · exact congrArg (Option.map _) h_run
      · exact Cascade.delete h_visited h_dependants
          ((Cascade.of_records h_records h_next (record.id :: visited)).trans h_cascade)

theorem foldlM_mono {σ α : Type} {f g : σ → α → Option σ}
    (h : ∀ p x q, f p x = some q → g p x = some q) {xs : List α} {p q : σ}
    (h_run : xs.foldlM f p = some q) : xs.foldlM g p = some q := by
  induction xs generalizing p with
  | nil => exact h_run
  | cons x xs ih =>
    rw [List.foldlM_cons] at h_run ⊢
    obtain ⟨p', h_first, h_rest⟩ := Option.bind_eq_some_iff.mp h_run
    exact Option.bind_eq_some_iff.mpr ⟨p', h p x p' h_first, ih h_rest⟩

/-- More fuel changes nothing. -/
theorem removeRecordWithFile_succ {cascade : Bool} {fuel : Nat} {record : ContentRecord}
    {p q : Store × List RecordId} (h : removeRecordWithFile cascade fuel record p = some q) :
    removeRecordWithFile cascade (fuel + 1) record p = some q := by
  induction fuel generalizing record p q with
  | zero => cases h
  | succ fuel ih =>
    obtain ⟨s, visited⟩ := p
    rw [removeRecordWithFile] at h ⊢
    split
    · rename_i h_visited
      rw [if_pos h_visited] at h
      exact h
    · rename_i h_visited
      rw [if_neg h_visited] at h
      obtain ⟨r, h_run, h_q⟩ := Option.map_eq_some_iff.mp h
      exact Option.map_eq_some_iff.mpr ⟨r, foldlM_mono (fun _ _ _ h_d => ih h_d) h_run, h_q⟩

theorem removeRecordWithFile_le {cascade : Bool} {fuel fuel' : Nat} {record : ContentRecord}
    {p q : Store × List RecordId} (h_le : fuel ≤ fuel')
    (h : removeRecordWithFile cascade fuel record p = some q) :
    removeRecordWithFile cascade fuel' record p = some q := by
  induction h_le with
  | refl => exact h
  | step _ ih => exact removeRecordWithFile_succ ih

/-- The removal of a record of the table ends, on any table. -/
theorem removeRecordWithFile_ends (cascade : Bool) {s : Store} {record : ContentRecord}
    (h : record ∈ s.records) :
    ∃ after visited, Cascade [record.id] s after [] visited ∧
      ∀ fuel, s.records.length < fuel →
        removeRecordWithFile cascade fuel record (s, []) = some (after, visited) := by
  obtain ⟨after, visited, h_run, h_cascade⟩ := removeRecordWithFile_spec cascade
    (s.records.length + 1) record s [] (Nat.lt_succ_of_le (unvisited_card_le s))
    (.inr (List.mem_map_of_mem h))
  exact ⟨after, visited, h_cascade, fun fuel h_fuel => removeRecordWithFile_le h_fuel h_run⟩

end Store

/-! ## What holds between the tasks -/

namespace History

/-- A row with a parent was chosen by nobody and is wanted by no other record of the table. -/
structure Owned (h : History) : Prop where
  ids : UniqueCol (·.id) h.store.records
  fresh : ∀ r ∈ h.store.records, r.id < h.store.nextId
  chosen_lt : ∀ id ∈ h.chosen, id < h.store.nextId
  wants_lt : ∀ q other, (q, other) ∈ h.wants → q < h.store.nextId ∧ other < h.store.nextId
  owner : ∀ r ∈ h.store.records, ∀ p, r.dependencyOf = some p →
    r.id ∉ h.chosen ∧ ∀ q ∈ h.store.ids, (q, r.id) ∈ h.wants → q = p

variable {h h' : History} {override : Option ContentRecord} {fetched : Fetched}
  {owner : Option RecordId} {choice : Bool} {id : RecordId}

theorem mem_of_existing {row : ContentRecord} (h_override : ∀ r, override = some r → r ∈ h.store.records)
    (h_row : h.store.existing override fetched.version = some row) : row ∈ h.store.records := by
  obtain h_given | ⟨-, h_found⟩ := Option.or_eq_some_iff.mp h_row
  · exact h_override row h_given
  · exact List.mem_of_find?_eq_some h_found

/-- What `installSingle` does to the table: nothing, a row written again or a new one. -/
theorem installSingle_cases {s s' : Store}
    (h_run : s.installSingle override fetched owner = some (s', id)) :
    (∃ row, s.existing override fetched.version = some row ∧ row.id = id ∧
        row.versionId = fetched.version.id ∧ s' = s) ∨
      (∃ row fileName fileHash, s.existing override fetched.version = some row ∧ row.id = id ∧
        row.versionId ≠ fetched.version.id ∧
        s' = { s with
          records := modifyRow (·.id) row.id (fun r =>
            { r with
              versionId := fetched.version.id
              fileName := fileName
              fileHash := fileHash
              dependencyOf := owner }) s.records }) ∨
      ∃ fileName fileHash, s.existing override fetched.version = none ∧ id = s.nextId ∧
        s' = { s with
          records := s.records ++
            [⟨s.nextId, fetched.version.projectId, fetched.version.id, fileName, fileHash, owner⟩]
          nextId := s.nextId + 1 } := by
  simp only [Store.installSingle] at h_run
  split at h_run
  · rename_i row h_row
    obtain ⟨h_row, h_same⟩ := Option.filter_eq_some_iff.mp h_row
    cases h_run
    exact .inl ⟨row, h_row, rfl, of_decide_eq_true h_same, rfl⟩
  · rename_i h_none
    split at h_run
    · split at h_run
      · cases h_run
      · split at h_run
        · rename_i row h_row
          rw [h_row, Option.filter_eq_none_iff] at h_none
          have h_other : row.versionId ≠ fetched.version.id := fun h_eq =>
            h_none row rfl (decide_eq_true h_eq)
          rw [Store.update] at h_run
          split at h_run
          · cases h_run
            exact .inr (.inl ⟨row, _, _, h_row, rfl, h_other, rfl⟩)
          · cases h_run
        · rename_i h_free
          rw [Store.create] at h_run
          split at h_run
          · cases h_run
          · cases h_run
            exact .inr (.inr ⟨_, _, h_free, rfl, rfl⟩)
    · cases h_run

theorem chosen_installSingle (h_run : h.installSingle override fetched owner choice = some (h', id))
    {other : RecordId} : other ∈ h'.chosen ↔ other ∈ h.chosen ∨ choice = true ∧ other = id := by
  obtain ⟨⟨s, new⟩, -, h_eq⟩ := Option.map_eq_some_iff.mp h_run
  cases h_eq
  cases choice with
  | false => exact ⟨.inl, fun h_or => h_or.elim id fun h_and => by cases h_and.1⟩
  | true =>
    show other ∈ h.chosen ++ [new] ↔ _
    rw [List.mem_append, List.mem_singleton]
    exact or_congr_right ⟨fun h_eq => ⟨rfl, h_eq⟩, fun h_and => h_and.2⟩

theorem wants_installSingle (h_run : h.installSingle override fetched owner choice = some (h', id))
    {q other : RecordId} :
    (q, other) ∈ h'.wants ↔ (q, other) ∈ h.wants ∨ owner = some q ∧ other = id := by
  obtain ⟨⟨s, new⟩, -, h_eq⟩ := Option.map_eq_some_iff.mp h_run
  cases h_eq
  cases owner with
  | none => exact ⟨.inl, fun h_or => h_or.elim id fun h_and => by cases h_and.1⟩
  | some main =>
    show (q, other) ∈ h.wants ++ [(main, new)] ↔ _
    rw [List.mem_append, List.mem_singleton, Prod.mk.injEq]
    refine or_congr_right (and_congr_left fun _ => ?_)
    exact ⟨fun h_eq => congrArg some h_eq.symm, fun h_eq => (Option.some.inj h_eq).symm⟩

theorem store_installSingle (h_run : h.installSingle override fetched owner choice = some (h', id)) :
    h.store.installSingle override fetched owner = some (h'.store, id) := by
  obtain ⟨⟨s, new⟩, h_store, h_eq⟩ := Option.map_eq_some_iff.mp h_run
  cases h_eq
  exact h_store

/-- The ids in use are those below the next one. -/
theorem Owned.nextId_installSingle (hs : Owned h)
    (h_override : ∀ r, override = some r → r ∈ h.store.records)
    (h_run : h.installSingle override fetched owner choice = some (h', id)) :
    h.store.nextId ≤ h'.store.nextId ∧ id < h'.store.nextId := by
  obtain ⟨row, h_row, rfl, -, h_same⟩ | ⟨row, fileName, fileHash, h_row, rfl, -, h_same⟩ |
    ⟨fileName, fileHash, -, rfl, h_same⟩ := installSingle_cases (store_installSingle h_run)
  · rw [h_same]
    exact ⟨Nat.le_refl _, hs.fresh row (mem_of_existing h_override h_row)⟩
  · rw [h_same]
    exact ⟨Nat.le_refl _, hs.fresh row (mem_of_existing h_override h_row)⟩
  · rw [h_same]
    exact ⟨Nat.le_succ _, Nat.lt_succ_self _⟩

/-- An install that leaves the rows of others alone. -/
theorem Owned.installSingle (hs : Owned h)
    (h_override : ∀ r, override = some r → r ∈ h.store.records)
    (h_owner : ∀ main, owner = some main → main < h.store.nextId)
    (h_choice : choice = true → owner = none)
    (h_careful : h.leavesOwners override fetched owner choice = true)
    (h_run : h.installSingle override fetched owner choice = some (h', id)) : Owned h' := by
  obtain ⟨h_next, h_id⟩ := hs.nextId_installSingle h_override h_run
  have h_chosen := @chosen_installSingle _ _ _ _ _ _ _ h_run
  have h_wants := @wants_installSingle _ _ _ _ _ _ _ h_run
  have h_chosen_lt : ∀ other ∈ h'.chosen, other < h'.store.nextId := fun other h_other => by
    obtain h_old | ⟨-, rfl⟩ := h_chosen.mp h_other
    · exact Nat.lt_of_lt_of_le (hs.chosen_lt other h_old) h_next
    · exact h_id
  have h_wants_lt : ∀ q other, (q, other) ∈ h'.wants →
      q < h'.store.nextId ∧ other < h'.store.nextId := fun q other h_other => by
    obtain h_old | ⟨h_main, rfl⟩ := h_wants.mp h_other
    · obtain ⟨h_q, h_lt⟩ := hs.wants_lt q other h_old
      exact ⟨Nat.lt_of_lt_of_le h_q h_next, Nat.lt_of_lt_of_le h_lt h_next⟩
    · exact ⟨Nat.lt_of_lt_of_le (h_owner q h_main) h_next, h_id⟩
  rw [leavesOwners] at h_careful
  obtain ⟨row, h_row, rfl, h_version, h_same⟩ | ⟨row, fileName, fileHash, h_row, rfl, h_version, h_same⟩ |
    ⟨fileName, fileHash, h_none, rfl, h_same⟩ := installSingle_cases (store_installSingle h_run)
  · -- the row stays as it is
    have h_mem := mem_of_existing h_override h_row
    rw [h_row] at h_careful
    simp only [if_pos h_version] at h_careful
    refine ⟨h_same ▸ hs.ids, h_same ▸ hs.fresh, h_chosen_lt, h_wants_lt, fun r h_r p h_p => ?_⟩
    rw [h_same] at h_r
    obtain ⟨h_free, h_only⟩ := hs.owner r h_r p h_p
    refine ⟨fun h_mem' => ?_, fun q h_q h_want => ?_⟩
    · obtain h_old | ⟨h_true, h_eq⟩ := h_chosen.mp h_mem'
      · exact h_free h_old
      · rw [hs.ids.eq_of_col h_r h_mem h_eq] at h_p
        rw [h_choice h_true, h_true, h_p] at h_careful
        cases h_careful
    · rw [h_same] at h_q
      obtain h_old | ⟨h_main, h_eq⟩ := h_wants.mp h_want
      · exact h_only q h_q h_old
      · rw [hs.ids.eq_of_col h_r h_mem h_eq] at h_p
        rw [h_main, h_p] at h_careful
        have h_eq : p = q := by simpa using h_careful
        exact h_eq.symm
  · -- the row is written again
    rw [h_row] at h_careful
    simp only [if_neg h_version] at h_careful
    have h_ids : h'.store.ids = h.store.ids := by
      rw [h_same]
      have h_keeps : ∀ r : ContentRecord, r.id = row.id →
          ({ r with
            versionId := fetched.version.id
            fileName := fileName
            fileHash := fileHash
            dependencyOf := owner } : ContentRecord).id = r.id := fun _ _ => rfl
      exact map_modifyRow_of_same h_keeps _
    have h_records : ∀ r ∈ h'.store.records,
        (r.id = row.id ∧ r.dependencyOf = owner) ∨ r ∈ h.store.records ∧ r.id ≠ row.id := by
      intro r h_r
      rw [h_same] at h_r
      obtain ⟨old, -, h_old, rfl⟩ | h_kept := mem_modifyRow.mp h_r
      · exact .inl ⟨h_old, rfl⟩
      · exact .inr h_kept
    refine ⟨?_, fun r h_r => ?_, h_chosen_lt, h_wants_lt, fun r h_r p h_p => ?_⟩
    · rw [h_same]
      exact hs.ids.modifyRow_same fun _ _ => rfl
    · obtain ⟨h_eq, -⟩ | ⟨h_old, -⟩ := h_records r h_r
      · rw [h_eq]
        exact h_id
      · exact Nat.lt_of_lt_of_le (hs.fresh r h_old) h_next
    · rw [h_ids]
      obtain ⟨h_eq, h_dep⟩ | ⟨h_old, h_ne⟩ := h_records r h_r
      · rw [h_dep] at h_p
        rw [h_p] at h_careful
        simp only [Bool.and_eq_true, decide_eq_true_iff] at h_careful
        refine ⟨fun h_mem' => ?_, fun q h_q h_want => ?_⟩
        · obtain h_old | ⟨h_true, -⟩ := h_chosen.mp h_mem'
          · exact h_careful.1 (h_eq ▸ h_old)
          · rw [h_choice h_true] at h_p
            cases h_p
        · obtain h_old | ⟨h_main, -⟩ := h_wants.mp h_want
          · have h_each := List.all_eq_true.mp h_careful.2 _ h_old
            simpa [h_eq, h_q] using h_each
          · rw [h_main] at h_p
            exact Option.some.inj h_p
      · obtain ⟨h_free, h_only⟩ := hs.owner r h_old p h_p
        exact ⟨fun h_mem' => (h_chosen.mp h_mem').elim h_free fun h_and => h_ne h_and.2,
          fun q h_q h_want => (h_wants.mp h_want).elim (h_only q h_q)
            fun h_and => absurd h_and.2 h_ne⟩
  · -- a new row
    have h_records : ∀ r ∈ h'.store.records,
        r ∈ h.store.records ∨ r.id = h.store.nextId ∧ r.dependencyOf = owner := by
      intro r h_r
      rw [h_same] at h_r
      obtain h_old | h_new := List.mem_append.mp h_r
      · exact .inl h_old
      · rw [List.mem_singleton.mp h_new]
        exact .inr ⟨rfl, rfl⟩
    refine ⟨?_, fun r h_r => ?_, h_chosen_lt, h_wants_lt, fun r h_r p h_p => ?_⟩
    · rw [h_same]
      exact hs.ids.append fun r h_r => Nat.ne_of_lt (hs.fresh r h_r)
    · obtain h_old | ⟨h_eq, -⟩ := h_records r h_r
      · exact Nat.lt_of_lt_of_le (hs.fresh r h_old) h_next
      · rw [h_eq]
        exact h_id
    · obtain h_old | ⟨h_eq, h_dep⟩ := h_records r h_r
      · have h_ne : r.id ≠ h.store.nextId := Nat.ne_of_lt (hs.fresh r h_old)
        obtain ⟨h_free, h_only⟩ := hs.owner r h_old p h_p
        refine ⟨fun h_mem' => (h_chosen.mp h_mem').elim h_free fun h_and => h_ne h_and.2,
          fun q h_q h_want => ?_⟩
        obtain h_want | ⟨-, h_eq⟩ := h_wants.mp h_want
        · refine h_only q ?_ h_want
          obtain ⟨row, h_row, rfl⟩ := List.mem_map.mp h_q
          obtain h_row | ⟨h_new, -⟩ := h_records row h_row
          · exact List.mem_map_of_mem h_row
          · have h_lt := (hs.wants_lt _ _ h_want).1
            rw [h_new] at h_lt
            exact absurd h_lt (Nat.lt_irrefl _)
        · exact absurd h_eq h_ne
      · rw [h_dep] at h_p
        refine ⟨fun h_mem' => ?_, fun q _ h_want => ?_⟩
        · obtain h_old | ⟨h_true, -⟩ := h_chosen.mp h_mem'
          · rw [h_eq] at h_old
            exact Nat.lt_irrefl _ (hs.chosen_lt _ h_old)
          · rw [h_choice h_true] at h_p
            cases h_p
        · obtain h_old | ⟨h_main, -⟩ := h_wants.mp h_want
          · rw [h_eq] at h_old
            exact absurd (hs.wants_lt _ _ h_old).2 (Nat.lt_irrefl _)
          · rw [h_main] at h_p
            exact Option.some.inj h_p

theorem Owned.installDependencies {main : RecordId} {dependencies : List (Option Fetched)}
    (hs : Owned h) (h_main : main < h.store.nextId)
    (h_careful : h.carefulDependencies main dependencies = true) :
    Owned (h.installDependencies main dependencies) := by
  induction dependencies generalizing h with
  | nil => exact hs
  | cons dependency rest ih =>
    cases dependency with
    | none => exact hs
    | some fetched =>
      rw [History.carefulDependencies, Bool.and_eq_true] at h_careful
      rw [History.installDependencies]
      obtain ⟨h_leaves, h_rest⟩ := h_careful
      cases h_run : h.installSingle none fetched (some main) false with
      | none => exact hs
      | some p =>
        obtain ⟨next, id⟩ := p
        rw [h_run] at h_rest
        have h_override : ∀ r, none = some r → r ∈ h.store.records := fun r h_r => by cases h_r
        have h_next := hs.installSingle h_override (fun m h_m => Option.some.inj h_m ▸ h_main)
          (fun h_false => by cases h_false) h_leaves h_run
        refine ih h_next ?_ h_rest
        exact Nat.lt_of_lt_of_le h_main (hs.nextId_installSingle h_override h_run).1

theorem Owned.executeInstallTask {main : Fetched} {dependencies : List (Option Fetched)}
    (hs : Owned h) (h_override : ∀ r, override = some r → r ∈ h.store.records)
    (h_careful : h.carefulTask override main dependencies choice = true) :
    Owned (h.executeInstallTask override main dependencies choice) := by
  rw [History.carefulTask, Bool.and_eq_true] at h_careful
  rw [History.executeInstallTask]
  obtain ⟨h_leaves, h_rest⟩ := h_careful
  cases h_run : h.installSingle override main none choice with
  | none => exact hs
  | some p =>
    obtain ⟨next, id⟩ := p
    rw [h_run] at h_rest
    have h_next := hs.installSingle h_override (fun m h_m => by cases h_m) (fun _ => rfl) h_leaves
      h_run
    exact h_next.installDependencies (hs.nextId_installSingle h_override h_run).2 h_rest

/-- A removal only takes rows and parents away. -/
theorem Owned.cascade {roots visited visited' : List RecordId} {after : Store} (hs : Owned h)
    (h_cascade : Store.Cascade roots h.store after visited visited') :
    Owned { h with store := after } where
  ids := h_cascade.unique hs.ids
  fresh := fun r' h_r' => by
    obtain ⟨r, h_r, h_id, -⟩ := h_cascade.links r' h_r'
    show r'.id < after.nextId
    rw [h_cascade.nextId, ← h_id]
    exact hs.fresh r h_r
  chosen_lt := fun id h_id => h_cascade.nextId ▸ hs.chosen_lt id h_id
  wants_lt := fun q other h_want => h_cascade.nextId ▸ hs.wants_lt q other h_want
  owner := fun r' h_r' p h_p => by
    obtain ⟨r, h_r, h_id, h_none | h_link⟩ := h_cascade.links r' h_r'
    · rw [h_p] at h_none
      cases h_none
    · obtain ⟨h_free, h_only⟩ := hs.owner r h_r p (h_link ▸ h_p)
      rw [← h_id]
      exact ⟨h_free, fun q h_q => h_only q ((h_cascade.ids q).mp h_q).1⟩

theorem Owned.step {e : Event} (hs : Owned h) (h_careful : h.careful e = true)
    (h_step : h.step e = some h') : Owned h' := by
  cases e with
  | install main request context =>
    cases h_step
    exact hs.executeInstallTask (fun r h_r => by cases h_r) h_careful
  | update id main request context =>
    obtain ⟨record, h_record, rfl⟩ := Option.map_eq_some_iff.mp h_step
    rw [History.careful, h_record] at h_careful
    refine hs.executeInstallTask (fun r h_r => ?_) h_careful
    cases h_r
    exact List.mem_of_find?_eq_some h_record
  | remove id cascade =>
    obtain ⟨record, h_record, h_removed⟩ := Option.bind_eq_some_iff.mp h_step
    obtain ⟨⟨after, visited⟩, h_run, rfl⟩ := Option.map_eq_some_iff.mp h_removed
    obtain ⟨after', visited', h_cascade, h_ends⟩ := Store.removeRecordWithFile_ends cascade
      (List.mem_of_find?_eq_some h_record)
    rw [h_ends _ (Nat.lt_succ_self _)] at h_run
    cases h_run
    exact hs.cascade h_cascade

theorem owned_of_init (h_init : history.init h) : Owned h := by
  obtain ⟨h_records, h_chosen, h_wants⟩ := h_init
  constructor
  · rw [h_records]
    exact uniqueCol_nil _
  · rw [h_records]
    exact fun _ h_r => by cases h_r
  · rw [h_chosen]
    exact fun _ h_id => by cases h_id
  · rw [h_wants]
    exact fun _ _ h_want => by cases h_want
  · rw [h_records]
    exact fun _ h_r => by cases h_r

/-! ## Every run -/

/-- A removal with its dependants ends, and what it takes besides the record was chosen by
    nobody and is a dependency of no record that stays. -/
theorem removal_spares_wanted
    (h_run : history.ReachableUnder (fun h e => h.careful e = true) h) {record : ContentRecord}
    (h_record : record ∈ h.store.records) :
    ∃ after visited,
      (∀ fuel, h.store.records.length < fuel →
        Store.removeRecordWithFile true fuel record (h.store, []) = some (after, visited)) ∧
      ∀ r ∈ h.store.records, r.id ∉ after.ids →
        r = record ∨ r.id ∉ h.chosen ∧ ∀ q ∈ after.ids, (q, r.id) ∉ h.wants := by
  have hs : Owned h := h_run.invariant (fun h h_init => owned_of_init h_init)
    fun h e h' hs h_careful h_step => hs.step h_careful h_step
  obtain ⟨after, visited, h_cascade, h_ends⟩ := Store.removeRecordWithFile_ends true h_record
  refine ⟨after, visited, h_ends, fun r h_r h_gone => ?_⟩
  have h_visited : r.id ∈ visited := by
    by_contra h_not
    exact h_gone ((h_cascade.ids r.id).mpr ⟨List.mem_map_of_mem h_r, .inr h_not⟩)
  obtain h_none | h_root | ⟨p, h_p, -, r', h_r', h_id, h_parent⟩ := h_cascade.cause _ h_visited
  · cases h_none
  · exact .inl (hs.ids.eq_of_col h_r h_record (List.mem_singleton.mp h_root))
  · -- a dependant of a record that went too
    rw [hs.ids.eq_of_col h_r' h_r h_id] at h_parent
    obtain ⟨h_free, h_only⟩ := hs.owner r h_r p h_parent
    refine .inr ⟨h_free, fun q h_q h_want => ?_⟩
    obtain ⟨h_before, h_new | h_stays⟩ := (h_cascade.ids q).mp h_q
    · cases h_new
    · exact h_stays (h_only q h_before h_want ▸ h_p)

/-! ## Single runs -/

def empty : History := { store := ⟨[], fun _ => none, 0, []⟩ }

/-- A version with one file, whose download succeeds. -/
def available (projectId versionId : String) : Fetched :=
  ⟨⟨versionId, projectId, [⟨projectId ++ ".jar", true, "https://cdn", none, none⟩]⟩, some none⟩

def context (dep : Dependency) : Option Fetched := some (available dep.projectId dep.versionId)

/-- The user installs a project with what it requires. -/
def chooses (projectId versionId : String) (required : List (String × Option String)) : Event :=
  .install (available projectId versionId) { installRequired := true, required } context

/-- A map with a library, then both in a newer version. -/
def mapAndLibrary : List Event :=
  [chooses "map" "m1" [("library", some "l1")],
    .update 0 (available "map" "m2") { installRequired := true, required := [("library", some "l2")] }
      context]

theorem removal_spares_wanted_library :
    ∃ h record after visited, history.runUnder careful empty mapAndLibrary = some h ∧
      record ∈ h.store.records ∧ h.chosen = [0] ∧ h.wants = [(0, 1), (0, 1)] ∧
      Store.removeRecordWithFile true 3 record (h.store, []) = some (after, visited) ∧
      ∀ r ∈ h.store.records, r.id ∉ after.ids →
        r = record ∨ r.id ∉ h.chosen ∧ ∀ q ∈ after.ids, (q, r.id) ∉ h.wants := by
  let h := (history.runUnder careful empty mapAndLibrary).get rfl
  have h_run : history.runUnder careful empty mapAndLibrary = some h :=
    (Option.some_get (x := history.runUnder careful empty mapAndLibrary) rfl).symm
  have h_record : ⟨0, "map", "m2", "map.jar", none, none⟩ ∈ h.store.records := List.mem_cons_self
  obtain ⟨after, visited, h_ends, h_spares⟩ := removal_spares_wanted
    (history.reachableUnder_of_runUnder mapAndLibrary (.init ⟨rfl, rfl, rfl⟩) h_run) h_record
  exact ⟨h, _, after, visited, h_run, h_record, rfl, rfl, h_ends 3 (Nat.lt_succ_self 2), h_spares⟩

/-- A record that is wanted goes with another one. -/
def LosesWanted (h : History) : Prop :=
  ∃ record ∈ h.store.records, ∃ after visited,
    Store.removeRecordWithFile true (h.store.records.length + 1) record (h.store, []) =
      some (after, visited) ∧
    ∃ r ∈ h.store.records, r.id ∉ after.ids ∧ r ≠ record ∧
      (r.id ∈ h.chosen ∨ ∃ q ∈ after.ids, (q, r.id) ∈ h.wants)

/-- Two projects that the user chose need the same version of a library. -/
def shared : List Event :=
  [chooses "map" "m1" [("library", some "l1")], chooses "shop" "s1" [("library", some "l1")]]

/-- The user chose the library, then a project that needs a newer version of it. -/
def takenOver : List Event :=
  [chooses "library" "l1" [], chooses "map" "m1" [("library", some "l2")]]

/-- The shared library goes with its first owner while the second needs it, and a library the
    user chose goes with a project that needed it later. -/
theorem wanted_records_removed :
    (∃ h, history.run empty shared = some h ∧ history.Reachable h ∧ LosesWanted h) ∧
      ∃ h, history.run empty takenOver = some h ∧ history.Reachable h ∧ LosesWanted h := by
  refine ⟨⟨_, rfl, history.reachable_of_run shared (.init ⟨rfl, rfl, rfl⟩) rfl, ?_⟩,
    ⟨_, rfl, history.reachable_of_run takenOver (.init ⟨rfl, rfl, rfl⟩) rfl, ?_⟩⟩
  · refine ⟨⟨0, "map", "m1", "map.jar", none, none⟩, List.mem_cons_self, _, _, rfl,
      ⟨1, "library", "l1", "library.jar", none, some 0⟩,
      List.mem_cons_of_mem _ List.mem_cons_self, ?_, ?_, ?_⟩
    · decide
    · decide
    · exact .inr ⟨2, by decide, by decide⟩
  · refine ⟨⟨1, "map", "m1", "map.jar", none, none⟩, ?_, _, _, rfl,
      ⟨0, "library", "l2", "library.jar", none, some 1⟩, List.mem_cons_self, ?_, ?_, ?_⟩
    · exact List.mem_cons_of_mem _ List.mem_cons_self
    · decide
    · decide
    · exact .inl (by decide)

end History

end Kubek.Content
