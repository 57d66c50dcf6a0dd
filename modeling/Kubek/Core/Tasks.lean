/-
  Kubek.Core.Tasks

  Background tasks (modules/tasks/tasks.service.ts): who waits for a task, who watches it,
  and when it is forgotten.

  A promise of `waitFor` and a callback of `watch` are numbers here; what they were told is
  kept beside the service, with every version a task ever had, so that a run can be compared
  with what it should have told. Ids are never drawn twice, and a watcher neither watches
  nor stops from inside its call. Type, meta, step and stages of a task, the events that go
  out and the order of `getAll` are left out.
-/

import Mathlib.Data.List.Nodup
import Mathlib.Logic.Function.Basic
import Kubek.Lib.Machine

namespace Kubek.Tasks

open Transition (Machine)

inductive TaskStatus
  | pending
  | running
  | success
  | failed
  | cancelled
  deriving DecidableEq

def FINISHED : List TaskStatus := [.success, .failed, .cancelled]

structure TaskError where
  code : String
  message : String
  deriving DecidableEq

section Service

variable {ρ : Type}

/-- `ITask`, over the results there are. -/
structure ITask (ρ : Type) where
  id : String
  status : TaskStatus
  progress : Nat
  message : Option String
  result : Option ρ
  error : Option TaskError
  createdAt : Nat
  updatedAt : Nat

/-- `Partial<ITask>`: what an update sets. -/
structure TaskUpdate (ρ : Type) where
  status : Option TaskStatus := none
  progress : Option Nat := none
  message : Option String := none
  result : Option ρ := none
  error : Option TaskError := none

/-- `{ ...task, ...data, updatedAt }`. -/
def ITask.merge (task : ITask ρ) (data : TaskUpdate ρ) (now : Nat) : ITask ρ :=
  { task with
    status := data.status.getD task.status
    progress := data.progress.getD task.progress
    message := data.message.or task.message
    result := data.result.or task.result
    error := data.error.or task.error
    updatedAt := now }

def ITask.finished (task : ITask ρ) : Bool := FINISHED.contains task.status

/-! ## The service -/

def TTL : Nat := 1000 * 60 * 10

/-- The maps of the service. A set of watchers is shared between the map and the functions
    that stop a watcher, so the map holds its number. -/
structure TasksService (ρ : Type) where
  tasks : String → Option (ITask ρ)
  waiters : String → List Nat
  watchers : String → Option Nat
  sets : List (List Nat)

def createTask (s : TasksService ρ) (id : String) (now : Nat) : TasksService ρ :=
  { s with
    tasks := Function.update s.tasks id
      (some { id, status := .pending, progress := 0, message := none, result := none
              error := none, createdAt := now, updatedAt := now }) }

/-- What an update tells: the new version, the watchers that are called with it and the
    promises that are resolved with it. -/
structure Told (ρ : Type) where
  task : ITask ρ
  watchers : List Nat
  waiters : List Nat

def updateTask (s : TasksService ρ) (id : String) (data : TaskUpdate ρ) (now : Nat) :
    TasksService ρ × Option (Told ρ) :=
  match s.tasks id with
  | none => (s, none)
  | some task =>
      let updated := task.merge data now
      let s := { s with tasks := Function.update s.tasks id (some updated) }
      let called := (s.watchers id).elim [] fun set => s.sets.getD set []
      if updated.finished then
        ({ s with waiters := Function.update s.waiters updated.id [] },
          some { task := updated, watchers := called, waiters := s.waiters updated.id })
      else (s, some { task := updated, watchers := called, waiters := [] })

/-- How `waitFor` begins: rejected, resolved at once, or waiting. -/
inductive Waiting (ρ : Type)
  | rejected (message : String)
  | resolved (task : ITask ρ)
  | waits

def waitFor (s : TasksService ρ) (id : String) (promise : Nat) : TasksService ρ × Waiting ρ :=
  match s.tasks id with
  | none => (s, .rejected ("Task " ++ id ++ " not found"))
  | some task =>
      if task.finished then (s, .resolved task)
      else ({ s with waiters := Function.update s.waiters id (s.waiters id ++ [promise]) }, .waits)

/-- `watch`, with the number of the set that the returned function remembers. -/
def watch (s : TasksService ρ) (id : String) (onUpdate : Nat) : TasksService ρ × Nat :=
  match s.watchers id with
  | some set => ({ s with sets := s.sets.modify set (· ++ [onUpdate]) }, set)
  | none =>
      ({ s with
          sets := s.sets ++ [[onUpdate]]
          watchers := Function.update s.watchers id (some s.sets.length) },
        s.sets.length)

/-- The function that `watch` returns. -/
def unwatch (s : TasksService ρ) (id : String) (onUpdate set : Nat) : TasksService ρ :=
  let left := (s.sets.getD set []).filter (· != onUpdate)
  { s with
    sets := s.sets.set set left
    watchers := if left.isEmpty then Function.update s.watchers id none else s.watchers }

def remove (s : TasksService ρ) (id : String) : TasksService ρ :=
  { s with tasks := Function.update s.tasks id none }

/-- A finished task that was not updated for longer than the TTL. -/
def ITask.expired (task : ITask ρ) (now : Nat) : Bool :=
  task.finished && decide (TTL < now - task.updatedAt)

def cleanupCompleted (s : TasksService ρ) (now : Nat) : TasksService ρ :=
  { s with tasks := fun id => (s.tasks id).filter fun task => !task.expired now }

/-- An error that was thrown: its code, where it has one, and its message. -/
structure Thrown where
  code : Option String
  message : String

/-- The last update of a task that `runTask` started. -/
def outcome : Except Thrown ρ → TaskUpdate ρ
  | .ok result =>
      { status := some .success, progress := some 100, result := some result
        message := some "Completed" }
  | .error err =>
      { status := some .failed
        error := some { code := err.code.getD "TASK_ERROR", message := err.message } }

end Service

/-! ## Runs -/

/-- What a promise was told. -/
inductive Answer (ρ : Type)
  | rejected (message : String)
  | resolved (task : ITask ρ)

/-- A promise of `waitFor`: the place in the history of its task that was the current one. -/
structure Promise (ρ : Type) where
  id : String
  since : Option Nat
  answers : List (Answer ρ)

/-- A callback of `watch`, the part of the history it saw and its calls. -/
structure Watch (ρ : Type) where
  id : String
  set : Nat
  since : Nat
  stopped : Option Nat
  calls : List (ITask ρ)

/-- The service and its history: every version of every task, whom it told what, which tasks
    somebody removed, when the cleanup ran, and which background runs are still going or
    ended where. -/
structure Panel (ρ : Type) where
  service : TasksService ρ
  history : String → List (ITask ρ)
  promises : List (Promise ρ)
  watches : List (Watch ρ)
  removed : String → Bool
  cleaned : List Nat
  running : List String
  settledAt : String → Option Nat

section Panel

variable {ρ : Type}

def Panel.create (s : Panel ρ) (id : String) (now : Nat) : Panel ρ :=
  let service := createTask s.service id now
  { s with
    service
    history := Function.update s.history id (s.history id ++ (service.tasks id).toList) }

/-- The promises after some were resolved with a version, each as often as it is named. -/
def tellWaiters (waiters : List Nat) (task : ITask ρ) (promises : List (Promise ρ)) :
    List (Promise ρ) :=
  promises.mapIdx fun n p =>
    { p with answers := p.answers ++ List.replicate (waiters.count n) (.resolved task) }

/-- The watches after some were called with a version. -/
def tellWatchers (watchers : List Nat) (task : ITask ρ) (watches : List (Watch ρ)) :
    List (Watch ρ) :=
  watches.mapIdx fun n w => { w with calls := w.calls ++ List.replicate (watchers.count n) task }

def Panel.update (s : Panel ρ) (id : String) (data : TaskUpdate ρ) (now : Nat) : Panel ρ :=
  match updateTask s.service id data now with
  | (service, none) => { s with service }
  | (service, some told) =>
      { s with
        service
        history := Function.update s.history id (s.history id ++ [told.task])
        promises := tellWaiters told.waiters told.task s.promises
        watches := tellWatchers told.watchers told.task s.watches }

def Panel.waitFor (s : Panel ρ) (id : String) : Panel ρ :=
  let last := (s.history id).length - 1
  match Tasks.waitFor s.service id s.promises.length with
  | (service, .rejected message) =>
      { s with
        service
        promises := s.promises ++ [{ id, since := none, answers := [.rejected message] }] }
  | (service, .resolved task) =>
      { s with
        service
        promises := s.promises ++ [{ id, since := some last, answers := [.resolved task] }] }
  | (service, .waits) =>
      { s with
        service
        promises := s.promises ++ [{ id, since := some last, answers := [] }] }

def Panel.watch (s : Panel ρ) (id : String) : Panel ρ :=
  let watched := Tasks.watch s.service id s.watches.length
  { s with
    service := watched.1
    watches := s.watches ++
      [{ id, set := watched.2, since := (s.history id).length, stopped := none, calls := [] }] }

def Panel.unwatch (s : Panel ρ) (n : Nat) : Option (Panel ρ) :=
  (s.watches[n]?).map fun w =>
    { s with
      service := Tasks.unwatch s.service w.id n w.set
      watches := s.watches.set n { w with stopped := some (s.history w.id).length } }

inductive Event (ρ : Type)
  | createTask (id : String) (now : Nat)
  | updateTask (id : String) (data : TaskUpdate ρ) (now : Nat)
  | runTask (id : String) (now : Nat)
  | settled (id : String) (result : Except Thrown ρ) (now : Nat)
  | waitFor (id : String)
  | watch (id : String)
  | unwatch (n : Nat)
  | remove (id : String)
  | cleanupCompleted (now : Nat)

def step (s : Panel ρ) : Event ρ → Option (Panel ρ)
  | .createTask id now => some (s.create id now)
  | .updateTask id data now => some (s.update id data now)
  | .runTask id now =>
      some { (s.create id now).update id { status := some .running } now with
        running := s.running ++ [id] }
  | .settled id result now =>
      if s.running.contains id then
        let s' := s.update id (outcome result) now
        some { s' with
          running := s.running.erase id
          settledAt := Function.update s.settledAt id (some (s'.history id).length) }
      else none
  | .waitFor id => some (s.waitFor id)
  | .watch id => some (s.watch id)
  | .unwatch n => s.unwatch n
  | .remove id =>
      some { s with
        service := remove s.service id
        removed := Function.update s.removed id true }
  | .cleanupCompleted now =>
      some { s with service := cleanupCompleted s.service now, cleaned := s.cleaned ++ [now] }

/-- An id that nobody has heard of, and a watcher that is stopped once. -/
def sound (s : Panel ρ) : Event ρ → Bool
  | .createTask id _ => (s.history id).isEmpty && s.watches.all (·.id != id)
  | .runTask id _ => (s.history id).isEmpty && s.watches.all (·.id != id)
  | .unwatch n => (s.watches[n]?).all (·.stopped.isNone)
  | _ => true

def start : Panel ρ where
  service := { tasks := fun _ => none, waiters := fun _ => [], watchers := fun _ => none, sets := [] }
  history := fun _ => []
  promises := []
  watches := []
  removed := fun _ => false
  cleaned := []
  running := []
  settledAt := fun _ => none

def panel : Machine (Panel ρ) (Event ρ) where
  init := (· = start)
  step := step

/-! ## What should have been told -/

/-- The first finished version from the one that was current at the call. -/
def Promise.expected (p : Promise ρ) (history : List (ITask ρ)) : List (Answer ρ) :=
  match p.since with
  | none => [.rejected ("Task " ++ p.id ++ " not found")]
  | some k => ((history.drop k).find? (·.finished)).toList.map .resolved

/-- Every version that came after the call, until it was stopped. -/
def Watch.expected (w : Watch ρ) (history : List (ITask ρ)) : List (ITask ρ) :=
  match w.stopped with
  | none => history.drop w.since
  | some u => (history.drop w.since).take (u - w.since)

/-- A task that is not there any more: somebody removed it, or it was finished and a cleanup
    found it too old. -/
def Forgotten (s : Panel ρ) (id : String) : Prop :=
  s.removed id = true ∨ ∃ task, (s.history id).getLast? = some task ∧
    ∃ now ∈ s.cleaned, task.expired now = true

structure TaskInv (s : Panel ρ) : Prop where
  current : ∀ id task, s.service.tasks id = some task →
    task.id = id ∧ (s.history id).getLast? = some task
  gone : ∀ id, s.history id ≠ [] → s.service.tasks id = none → Forgotten s id
  going : ∀ id ∈ s.running, s.history id ≠ []
  settled : ∀ id n, s.settledAt id = some n → s.history id ≠ [] ∧ (s.service.tasks id = none ∨
    ∃ k task, n = k + 1 ∧ (s.history id)[k]? = some task ∧ task.finished = true)

structure PromiseInv (service : TasksService ρ) (history : String → List (ITask ρ))
    (promises : List (Promise ρ)) : Prop where
  since : ∀ p ∈ promises, ∀ k, p.since = some k → k < (history p.id).length
  told : ∀ p ∈ promises, p.answers = p.expected (history p.id)
  waiting : ∀ id n, n ∈ service.waiters id ↔
    ∃ p, promises[n]? = some p ∧ p.id = id ∧ p.answers = []
  once : ∀ id, (service.waiters id).Nodup

structure WatchInv (service : TasksService ρ) (history : String → List (ITask ρ))
    (watches : List (Watch ρ)) : Prop where
  since : ∀ w ∈ watches, w.since ≤ (history w.id).length
  stopped : ∀ w ∈ watches, ∀ u, w.stopped = some u → u ≤ (history w.id).length
  told : ∀ w ∈ watches, w.calls = w.expected (history w.id)
  listed : ∀ n w, watches[n]? = some w → w.stopped = none →
    service.watchers w.id = some w.set ∧ n ∈ service.sets.getD w.set []
  members : ∀ h n, n ∈ service.sets.getD h [] →
    ∃ w, watches[n]? = some w ∧ w.stopped = none ∧ w.set = h
  once : ∀ h, (service.sets.getD h []).Nodup
  bound : ∀ id h, service.watchers id = some h → h < service.sets.length
  owner : ∀ id id' h, service.watchers id = some h → service.watchers id' = some h → id = id'

structure Inv (s : Panel ρ) : Prop where
  tasks : TaskInv s
  promises : PromiseInv s.service s.history s.promises
  watches : WatchInv s.service s.history s.watches

/-! ## What an update does -/

section Update

variable {s : Panel ρ} {id : String} {task : ITask ρ} {data : TaskUpdate ρ} {now : Nat}

/-- The watchers that an update of a task calls. -/
def called (service : TasksService ρ) (id : String) : List Nat :=
  (service.watchers id).elim [] fun set => service.sets.getD set []

theorem updateTask_eq {service : TasksService ρ} (h : service.tasks id = some task) :
    updateTask service id data now =
      ({ service with
          tasks := Function.update service.tasks id (some (task.merge data now))
          waiters := if (task.merge data now).finished then
            Function.update service.waiters (task.merge data now).id [] else service.waiters },
        some
          { task := task.merge data now
            watchers := called service id
            waiters := if (task.merge data now).finished then
              service.waiters (task.merge data now).id else [] }) := by
  rw [updateTask, h]
  cases h_finished : (task.merge data now).finished <;> simp [h_finished, called]

theorem update_missing (h : s.service.tasks id = none) : s.update id data now = s := by
  rw [Panel.update, updateTask, h]

theorem update_eq (h : s.service.tasks id = some task) (h_id : task.id = id) :
    s.update id data now =
      { s with
        service := { s.service with
          tasks := Function.update s.service.tasks id (some (task.merge data now))
          waiters := if (task.merge data now).finished then
            Function.update s.service.waiters id [] else s.service.waiters }
        history := Function.update s.history id (s.history id ++ [task.merge data now])
        promises := tellWaiters
          (if (task.merge data now).finished then s.service.waiters id else [])
          (task.merge data now) s.promises
        watches := tellWatchers (called s.service id) (task.merge data now) s.watches } := by
  have h_merge : (task.merge data now).id = id := h_id
  have h_service := @updateTask_eq ρ id task data now _ h
  cases h_finished : (task.merge data now).finished with
  | true =>
    rw [h_finished, if_pos rfl, if_pos rfl, h_merge] at h_service
    rw [Panel.update, h_service]
    rfl
  | false =>
    rw [h_finished] at h_service
    rw [Panel.update, h_service]
    rfl

end Update

/-! ### Promises -/

section Promises

variable {service service' : TasksService ρ} {history : String → List (ITask ρ)}
  {promises : List (Promise ρ)} {id : String} {t : ITask ρ}

/-- One more version: a promise that waited is answered by it, if it is finished. -/
theorem expected_append {p : Promise ρ} {versions : List (ITask ρ)}
    (h_since : ∀ k, p.since = some k → k < versions.length) :
    p.expected (versions ++ [t]) =
      p.expected versions ++ (if p.expected versions = [] ∧ t.finished = true then
        [.resolved t] else []) := by
  rw [Promise.expected, Promise.expected]
  cases h : p.since with
  | none => simp
  | some k =>
    have h_le := Nat.le_of_lt (h_since k h)
    dsimp only
    rw [List.drop_append_of_le_length h_le, List.find?_append]
    obtain h_none | ⟨found, h_some⟩ := ((versions.drop k).find? (·.finished)).eq_none_or_eq_some
    · cases h_t : t.finished <;> simp [h_none, h_t]
    · simp [h_some]

theorem PromiseInv.same (h : PromiseInv service history promises)
    (h_waiters : service'.waiters = service.waiters) : PromiseInv service' history promises :=
  ⟨h.since, h.told, fun id n => by rw [h_waiters]; exact h.waiting id n,
    fun id => by rw [h_waiters]; exact h.once id⟩

/-- Who is told at one place. -/
theorem getElem?_tellWaiters (h : PromiseInv service history promises) {n : Nat} {q : Promise ρ} :
    (tellWaiters (if t.finished then service.waiters id else []) t promises)[n]? = some q ↔
      ∃ p, promises[n]? = some p ∧ q =
        { p with
          answers := p.answers ++
            if (p.id = id ∧ p.answers = []) ∧ t.finished = true then [.resolved t] else [] } := by
  rw [tellWaiters, List.getElem?_mapIdx, Option.map_eq_some_iff]
  refine exists_congr fun p => and_congr_right fun h_p => ?_
  have h_count :
      List.replicate ((if t.finished then service.waiters id else []).count n) (Answer.resolved t) =
        if (p.id = id ∧ p.answers = []) ∧ t.finished = true then [.resolved t] else [] := by
    cases h_t : t.finished with
    | false => simp
    | true =>
      rw [if_pos rfl]
      by_cases h_in : p.id = id ∧ p.answers = []
      · rw [List.count_eq_one_of_mem (h.once id) ((h.waiting id n).mpr ⟨p, h_p, h_in⟩),
          if_pos ⟨h_in, rfl⟩]
        rfl
      · have h_not : n ∉ service.waiters id := by
          intro h_n
          obtain ⟨q, h_q, h_wait⟩ := (h.waiting id n).mp h_n
          rw [Option.some.inj (h_p.symm.trans h_q)] at h_in
          exact h_in h_wait
        rw [List.count_eq_zero_of_not_mem h_not, if_neg fun h_both => h_in h_both.1]
        rfl
  rw [h_count, eq_comm]

/-- A version is added: whoever waits is answered by it exactly where it is finished. -/
theorem PromiseInv.update (h : PromiseInv service history promises)
    (h_waiters : service'.waiters =
      if t.finished then Function.update service.waiters id [] else service.waiters) :
    PromiseInv service' (Function.update history id (history id ++ [t]))
      (tellWaiters (if t.finished then service.waiters id else []) t promises) := by
  have h_from : ∀ q ∈ tellWaiters (if t.finished then service.waiters id else []) t promises,
      ∃ p ∈ promises, q =
        { p with
          answers := p.answers ++
            if (p.id = id ∧ p.answers = []) ∧ t.finished = true then [.resolved t] else [] } := by
    intro q h_q
    obtain ⟨n, h_n⟩ := List.mem_iff_getElem?.mp h_q
    obtain ⟨p, h_p, h_eq⟩ := (getElem?_tellWaiters h).mp h_n
    exact ⟨p, List.mem_of_getElem? h_p, h_eq⟩
  refine ⟨fun q h_q k h_k => ?_, fun q h_q => ?_, fun other n => ?_, fun other => ?_⟩
  · obtain ⟨p, h_p, rfl⟩ := h_from q h_q
    have h_lt := h.since p h_p k h_k
    by_cases h_id : p.id = id
    · dsimp only
      rw [h_id, Function.update_self, List.length_append]
      rw [h_id] at h_lt
      omega
    · dsimp only
      rwa [Function.update_of_ne h_id]
  · obtain ⟨p, h_p, rfl⟩ := h_from q h_q
    have h_told := h.told p h_p
    show _ = p.expected (Function.update history id (history id ++ [t]) p.id)
    by_cases h_id : p.id = id
    · have h_expected := expected_append (t := t) (h.since p h_p)
      rw [h_id] at h_expected h_told
      rw [h_id, Function.update_self, h_expected, ← h_told]
      simp
    · rw [Function.update_of_ne h_id, ← h_told]
      simp [h_id]
  · have h_ids : (∃ q, (tellWaiters (if t.finished then service.waiters id else []) t
          promises)[n]? = some q ∧ q.id = other ∧ q.answers = []) ↔
        ∃ p, promises[n]? = some p ∧ p.id = other ∧ p.answers = [] ∧
          ¬ (p.id = id ∧ t.finished = true) := by
      constructor
      · rintro ⟨q, h_q, h_id, h_none⟩
        obtain ⟨p, h_p, rfl⟩ := (getElem?_tellWaiters h).mp h_q
        obtain ⟨h_empty, h_told⟩ := List.append_eq_nil_iff.mp h_none
        refine ⟨p, h_p, h_id, h_empty, fun h_both => ?_⟩
        rw [if_pos ⟨⟨h_both.1, h_empty⟩, h_both.2⟩] at h_told
        cases h_told
      · rintro ⟨p, h_p, h_id, h_empty, h_not⟩
        have h_if : ¬ ((p.id = id ∧ p.answers = []) ∧ t.finished = true) :=
          fun h_both => h_not ⟨h_both.1.1, h_both.2⟩
        refine ⟨p, (getElem?_tellWaiters h).mpr ⟨p, h_p, ?_⟩, h_id, h_empty⟩
        rw [if_neg h_if, List.append_nil]
    rw [h_waiters, h_ids]
    cases h_t : t.finished with
    | false => simpa using h.waiting other n
    | true =>
      rw [if_pos rfl]
      by_cases h_other : other = id
      · rw [h_other, Function.update_self]
        constructor
        · intro h_n
          cases h_n
        · rintro ⟨p, -, h_id, -, h_not⟩
          exact absurd ⟨h_id, rfl⟩ h_not
      · rw [Function.update_of_ne h_other, h.waiting other n]
        refine exists_congr fun p => and_congr_right fun _ => and_congr_right fun h_id => ?_
        have h_ne : p.id ≠ id := fun h_eq => h_other (h_id.symm.trans h_eq)
        simp [h_ne]
  · rw [h_waiters]
    split
    · by_cases h_other : other = id
      · rw [h_other, Function.update_self]
        exact List.nodup_nil
      · rw [Function.update_of_ne h_other]
        exact h.once other
    · exact h.once other

/-- A task that nobody has heard of begins its history. -/
theorem PromiseInv.created (h : PromiseInv service history promises)
    (h_waiters : service'.waiters = service.waiters) (h_new : history id = []) :
    PromiseInv service' (Function.update history id [t]) promises := by
  have h_none : ∀ p ∈ promises, p.id = id → p.since = none := by
    intro p h_p h_id
    cases h_since : p.since with
    | none => rfl
    | some k =>
      have h_lt := h.since p h_p k h_since
      rw [h_id, h_new] at h_lt
      cases h_lt
  refine { h.same h_waiters with since := fun p h_p k h_k => ?_, told := fun p h_p => ?_ }
  · by_cases h_id : p.id = id
    · rw [h_none p h_p h_id] at h_k
      cases h_k
    · rw [Function.update_of_ne h_id]
      exact h.since p h_p k h_k
  · rw [h.told p h_p]
    by_cases h_id : p.id = id
    · rw [Promise.expected, Promise.expected, h_none p h_p h_id]
    · rw [Function.update_of_ne h_id]

/-- One more promise, that waits exactly where it is put among the waiters. -/
theorem PromiseInv.waitFor (h : PromiseInv service history promises) {p : Promise ρ}
    (h_since : ∀ k, p.since = some k → k < (history p.id).length)
    (h_told : p.answers = p.expected (history p.id))
    (h_waiters : service'.waiters = if p.answers.isEmpty then
      Function.update service.waiters p.id (service.waiters p.id ++ [promises.length])
      else service.waiters) :
    PromiseInv service' history (promises ++ [p]) := by
  have h_old : ∀ other n, n ∈ service.waiters other → n < promises.length := by
    intro other n h_n
    obtain ⟨q, h_q, -⟩ := (h.waiting other n).mp h_n
    exact (List.getElem?_eq_some_iff.mp h_q).1
  have h_split : ∀ other n, (∃ q, (promises ++ [p])[n]? = some q ∧ q.id = other ∧ q.answers = []) ↔
      n ∈ service.waiters other ∨ (n = promises.length ∧ p.id = other ∧ p.answers = []) := by
    intro other n
    rw [h.waiting other n]
    by_cases h_n : n < promises.length
    · rw [List.getElem?_append_left h_n]
      have h_ne : n ≠ promises.length := Nat.ne_of_lt h_n
      simp [h_ne]
    · rw [List.getElem?_append_right (Nat.not_lt.mp h_n),
        List.getElem?_eq_none (Nat.not_lt.mp h_n)]
      by_cases h_eq : n = promises.length
      · simp [h_eq]
      · have h_pos : n - promises.length ≠ 0 := by omega
        rw [List.getElem?_eq_none (by rw [List.length_singleton]; omega)]
        simp [h_eq]
  refine ⟨fun q h_q => ?_, fun q h_q => ?_, fun other n => ?_, fun other => ?_⟩
  · obtain h_q | h_q := List.mem_append.mp h_q
    · exact h.since q h_q
    · rwa [List.mem_singleton.mp h_q]
  · obtain h_q | h_q := List.mem_append.mp h_q
    · exact h.told q h_q
    · rwa [List.mem_singleton.mp h_q]
  · rw [h_split, h_waiters]
    cases h_empty : p.answers.isEmpty with
    | false =>
      have h_ne : p.answers ≠ [] := by simpa using h_empty
      simp [h_ne]
    | true =>
      rw [if_pos rfl]
      by_cases h_other : p.id = other
      · rw [← h_other, Function.update_self, List.mem_append, List.mem_singleton]
        simp [List.isEmpty_iff.mp h_empty]
      · rw [Function.update_of_ne fun h_eq => h_other h_eq.symm]
        simp [h_other]
  · rw [h_waiters]
    split
    · by_cases h_other : other = p.id
      · rw [h_other, Function.update_self, List.nodup_append]
        refine ⟨h.once p.id, List.nodup_singleton _, fun a h_a b h_b h_eq => ?_⟩
        rw [List.mem_singleton.mp h_b] at h_eq
        exact Nat.ne_of_lt (h_old p.id a h_a) h_eq
      · rw [Function.update_of_ne h_other]
        exact h.once other
    · exact h.once other

end Promises

/-! ### Watchers -/

section Watches

variable {service service' : TasksService ρ} {history : String → List (ITask ρ)}
  {watches : List (Watch ρ)} {id : String} {t : ITask ρ}

/-- One more version is seen by the watchers that were not stopped. -/
theorem Watch.expected_append {w : Watch ρ} {versions : List (ITask ρ)}
    (h_since : w.since ≤ versions.length) (h_stopped : ∀ u, w.stopped = some u → u ≤ versions.length) :
    w.expected (versions ++ [t]) =
      w.expected versions ++ (if w.stopped = none then [t] else []) := by
  rw [Watch.expected, Watch.expected, List.drop_append_of_le_length h_since]
  cases h : w.stopped with
  | none => simp
  | some u =>
    have h_le := h_stopped u h
    dsimp only
    rw [List.take_append_of_le_length (by rw [List.length_drop]; omega)]
    simp

theorem WatchInv.same (h : WatchInv service history watches)
    (h_watchers : service'.watchers = service.watchers) (h_sets : service'.sets = service.sets) :
    WatchInv service' history watches := by
  refine { h with listed := ?_, members := ?_, once := ?_, bound := ?_, owner := ?_ }
  · rw [h_watchers, h_sets]
    exact h.listed
  · rw [h_sets]
    exact h.members
  · rw [h_sets]
    exact h.once
  · rw [h_watchers, h_sets]
    exact h.bound
  · rw [h_watchers]
    exact h.owner

/-- The watchers that an update calls are those of the task that were not stopped. -/
theorem WatchInv.mem_called (h : WatchInv service history watches) (id : String) {n : Nat}
    {w : Watch ρ} (h_w : watches[n]? = some w) : n ∈ called service id ↔ w.id = id ∧ w.stopped = none := by
  rw [called]
  constructor
  · intro h_n
    cases h_set : service.watchers id with
    | none =>
      rw [h_set] at h_n
      cases h_n
    | some set =>
      rw [h_set] at h_n
      obtain ⟨w', h_w', h_open, rfl⟩ := h.members set n h_n
      obtain rfl := Option.some.inj (h_w.symm.trans h_w')
      exact ⟨h.owner _ _ _ (h.listed n w h_w h_open).1 h_set, h_open⟩
  · rintro ⟨rfl, h_open⟩
    obtain ⟨h_set, h_n⟩ := h.listed n w h_w h_open
    rw [h_set]
    exact h_n

theorem WatchInv.nodup_called (h : WatchInv service history watches) :
    (called service id).Nodup := by
  rw [called]
  cases service.watchers id with
  | none => exact List.nodup_nil
  | some set => exact h.once set

theorem getElem?_tellWatchers (h : WatchInv service history watches) {n : Nat} {v : Watch ρ} :
    (tellWatchers (called service id) t watches)[n]? = some v ↔
      ∃ w, watches[n]? = some w ∧ v =
        { w with calls := w.calls ++ if w.id = id ∧ w.stopped = none then [t] else [] } := by
  rw [tellWatchers, List.getElem?_mapIdx, Option.map_eq_some_iff]
  refine exists_congr fun w => and_congr_right fun h_w => ?_
  have h_mem := h.mem_called id h_w
  have h_count : List.replicate ((called service id).count n) t =
      if w.id = id ∧ w.stopped = none then [t] else [] := by
    by_cases h_in : w.id = id ∧ w.stopped = none
    · rw [List.count_eq_one_of_mem h.nodup_called (h_mem.mpr h_in), if_pos h_in]
      rfl
    · rw [List.count_eq_zero_of_not_mem fun h_n => h_in (h_mem.mp h_n), if_neg h_in]
      rfl
  rw [h_count, eq_comm]

/-- A version is added: every watcher of the task that was not stopped is called with it. -/
theorem WatchInv.update (h : WatchInv service history watches)
    (h_watchers : service'.watchers = service.watchers) (h_sets : service'.sets = service.sets) :
    WatchInv service' (Function.update history id (history id ++ [t]))
      (tellWatchers (called service id) t watches) := by
  have h_get : ∀ (n : Nat) (v : Watch ρ), (tellWatchers (called service id) t watches)[n]? = some v →
      ∃ w, watches[n]? = some w ∧ v =
        { w with calls := w.calls ++ if w.id = id ∧ w.stopped = none then [t] else [] } :=
    fun n v => (getElem?_tellWatchers h).mp
  have h_from : ∀ v ∈ tellWatchers (called service id) t watches, ∃ w ∈ watches, v =
      { w with calls := w.calls ++ if w.id = id ∧ w.stopped = none then [t] else [] } := by
    intro v h_v
    obtain ⟨n, h_n⟩ := List.mem_iff_getElem?.mp h_v
    obtain ⟨w, h_w, h_eq⟩ := h_get n v h_n
    exact ⟨w, List.mem_of_getElem? h_w, h_eq⟩
  have h_length : ∀ other, (history other).length ≤
      (Function.update history id (history id ++ [t]) other).length := by
    intro other
    by_cases h_other : other = id
    · rw [h_other, Function.update_self, List.length_append]
      exact Nat.le_add_right _ _
    · exact Nat.le_of_eq (congrArg List.length (Function.update_of_ne h_other _ _).symm)
  refine ⟨fun v h_v => ?_, fun v h_v u h_u => ?_, fun v h_v => ?_, fun n v h_v h_open => ?_,
    fun set n h_n => ?_, ?_, ?_, ?_⟩
  · obtain ⟨w, h_w, rfl⟩ := h_from v h_v
    exact Nat.le_trans (h.since w h_w) (h_length w.id)
  · obtain ⟨w, h_w, rfl⟩ := h_from v h_v
    exact Nat.le_trans (h.stopped w h_w u h_u) (h_length w.id)
  · obtain ⟨w, h_w, rfl⟩ := h_from v h_v
    have h_told := h.told w h_w
    show _ = w.expected (Function.update history id (history id ++ [t]) w.id)
    by_cases h_id : w.id = id
    · have h_expected := Watch.expected_append (t := t) (h.since w h_w) (h.stopped w h_w)
      rw [h_id] at h_expected h_told
      rw [h_id, Function.update_self, h_expected, ← h_told]
      simp
    · rw [Function.update_of_ne h_id, ← h_told]
      simp [h_id]
  · obtain ⟨w, h_w, rfl⟩ := h_get n v h_v
    rw [h_watchers, h_sets]
    exact h.listed n w h_w h_open
  · rw [h_sets] at h_n
    obtain ⟨w, h_w, h_open, h_set⟩ := h.members set n h_n
    exact ⟨_, (getElem?_tellWatchers h).mpr ⟨w, h_w, rfl⟩, h_open, h_set⟩
  · rw [h_sets]
    exact h.once
  · rw [h_watchers, h_sets]
    exact h.bound
  · rw [h_watchers]
    exact h.owner

theorem WatchInv.created (h : WatchInv service history watches)
    (h_watchers : service'.watchers = service.watchers) (h_sets : service'.sets = service.sets)
    (h_new : ∀ w ∈ watches, w.id ≠ id) :
    WatchInv service' (Function.update history id [t]) watches := by
  refine { h.same h_watchers h_sets with since := ?_, stopped := ?_, told := ?_ }
  · intro w h_w
    rw [Function.update_of_ne (h_new w h_w)]
    exact h.since w h_w
  · intro w h_w
    rw [Function.update_of_ne (h_new w h_w)]
    exact h.stopped w h_w
  · intro w h_w
    rw [Function.update_of_ne (h_new w h_w)]
    exact h.told w h_w

/-- What `watch` does to the sets: the watcher is put into the set of the task, which is a
    new one where there was none. -/
theorem watch_spec (h : WatchInv service history watches) (id : String) (n : Nat) :
    (Tasks.watch service id n).1.watchers =
      Function.update service.watchers id (some (Tasks.watch service id n).2) ∧
    (∀ set, (Tasks.watch service id n).1.sets.getD set [] =
      if set = (Tasks.watch service id n).2 then service.sets.getD set [] ++ [n]
      else service.sets.getD set []) ∧
    (Tasks.watch service id n).2 < (Tasks.watch service id n).1.sets.length ∧
    service.sets.length ≤ (Tasks.watch service id n).1.sets.length ∧
    (∀ other, service.watchers other = some (Tasks.watch service id n).2 → other = id) ∧
    ∀ set, service.watchers id = some set → set = (Tasks.watch service id n).2 := by
  rw [Tasks.watch]
  cases h_set : service.watchers id with
  | some set =>
    refine ⟨?_, fun k => ?_, ?_, ?_, fun other h_other => h.owner _ _ _ h_other h_set,
      fun k h_k => (Option.some.inj h_k).symm⟩
    · dsimp only
      rw [← h_set, Function.update_eq_self]
    · have h_lt := h.bound id set h_set
      dsimp only
      rw [List.getD_eq_getElem?_getD, List.getD_eq_getElem?_getD, List.getElem?_modify]
      by_cases h_k : k = set
      · rw [h_k, if_pos rfl, List.getElem?_eq_getElem h_lt]
        simp
      · rw [if_neg h_k]
        have h_k' : ¬ set = k := fun h_eq => h_k h_eq.symm
        cases service.sets[k]? <;> simp [h_k']
    · rw [List.length_modify]
      exact h.bound id set h_set
    · exact Nat.le_of_eq (List.length_modify _ _ _).symm
  | none =>
    refine ⟨rfl, fun k => ?_, ?_, ?_, fun other h_other => ?_, fun k h_k => (by cases h_k)⟩
    · dsimp only
      rw [List.getD_eq_getElem?_getD, List.getD_eq_getElem?_getD]
      by_cases h_k : k = service.sets.length
      · simp [h_k]
      · rw [if_neg h_k]
        by_cases h_lt : k < service.sets.length
        · rw [List.getElem?_append_left h_lt]
        · rw [List.getElem?_eq_none (by rw [List.length_append, List.length_singleton]; omega),
            List.getElem?_eq_none (by omega)]
    · simp
    · simp
    · exact absurd (h.bound other _ h_other) (Nat.lt_irrefl _)

/-- Watching changes nothing else. -/
theorem tasks_watch {n : Nat} : (Tasks.watch service id n).1.tasks = service.tasks := by
  rw [Tasks.watch]
  cases service.watchers id <;> rfl

theorem waiters_watch {n : Nat} : (Tasks.watch service id n).1.waiters = service.waiters := by
  rw [Tasks.watch]
  cases service.watchers id <;> rfl

theorem WatchInv.watch (h : WatchInv service history watches) :
    WatchInv (Tasks.watch service id watches.length).1 history
      (watches ++ [{ id, set := (Tasks.watch service id watches.length).2
                     since := (history id).length, stopped := none, calls := [] }]) := by
  obtain ⟨h_watchers, h_sets, h_lt, h_length, h_owner, h_same⟩ :=
    watch_spec h id watches.length
  generalize (Tasks.watch service id watches.length).2 = set at *
  generalize (Tasks.watch service id watches.length).1 = service' at *
  have h_old : ∀ k n, n ∈ service.sets.getD k [] → n < watches.length := by
    intro k n h_n
    obtain ⟨w, h_w, -⟩ := h.members k n h_n
    exact (List.getElem?_eq_some_iff.mp h_w).1
  refine ⟨fun w h_w => ?_, fun w h_w => ?_, fun w h_w => ?_, fun n w h_w h_open => ?_,
    fun k n h_n => ?_, fun k => ?_, fun other k h_k => ?_, fun a b k h_a h_b => ?_⟩
  · obtain h_w | h_w := List.mem_append.mp h_w
    · exact h.since w h_w
    · obtain rfl := List.mem_singleton.mp h_w
      exact Nat.le_refl _
  · obtain h_w | h_w := List.mem_append.mp h_w
    · exact h.stopped w h_w
    · rw [List.mem_singleton.mp h_w]
      intro u h_u
      cases h_u
  · obtain h_w | h_w := List.mem_append.mp h_w
    · exact h.told w h_w
    · rw [List.mem_singleton.mp h_w]
      exact List.drop_length.symm
  · rw [h_watchers, h_sets]
    by_cases h_n : n < watches.length
    · rw [List.getElem?_append_left h_n] at h_w
      obtain ⟨h_listed, h_mem⟩ := h.listed n w h_w h_open
      constructor
      · by_cases h_id : w.id = id
        · rw [h_id] at h_listed
          rw [h_id, Function.update_self, h_same _ h_listed]
        · rwa [Function.update_of_ne h_id]
      · split
        · exact List.mem_append_left _ h_mem
        · exact h_mem
    · rw [List.getElem?_append_right (Nat.not_lt.mp h_n), List.getElem?_singleton] at h_w
      obtain ⟨h_zero, h_w⟩ := Option.ite_none_right_eq_some.mp h_w
      obtain rfl := Option.some.inj h_w
      have h_eq : n = watches.length := by omega
      rw [Function.update_self, if_pos rfl, h_eq]
      exact ⟨rfl, List.mem_append_right _ (List.mem_singleton_self _)⟩
  · have h_case : n ∈ service.sets.getD k [] ∨ (k = set ∧ n = watches.length) := by
      rw [h_sets] at h_n
      split at h_n
      · rename_i h_k
        obtain h_n | h_n := List.mem_append.mp h_n
        · exact .inl h_n
        · exact .inr ⟨h_k, List.mem_singleton.mp h_n⟩
      · exact .inl h_n
    obtain h_n | ⟨rfl, rfl⟩ := h_case
    · obtain ⟨w, h_w, h_open, h_set⟩ := h.members k n h_n
      refine ⟨w, ?_, h_open, h_set⟩
      rw [List.getElem?_append_left (h_old k n h_n)]
      exact h_w
    · exact ⟨_, List.getElem?_concat_length, rfl, rfl⟩
  · rw [h_sets]
    split
    · rw [List.nodup_append]
      refine ⟨h.once k, List.nodup_singleton _, fun a h_a b h_b h_eq => ?_⟩
      rw [List.mem_singleton.mp h_b] at h_eq
      exact Nat.ne_of_lt (h_old k a h_a) h_eq
    · exact h.once k
  · rw [h_watchers] at h_k
    by_cases h_other : other = id
    · rw [h_other, Function.update_self] at h_k
      rwa [← Option.some.inj h_k]
    · rw [Function.update_of_ne h_other] at h_k
      exact Nat.lt_of_lt_of_le (h.bound other k h_k) h_length
  · rw [h_watchers] at h_a h_b
    have h_id : ∀ c d : String, Function.update service.watchers id (some set) c = some k →
        Function.update service.watchers id (some set) d = some k → c = id → d = id := by
      rintro c d h_c h_d rfl
      rw [Function.update_self] at h_c
      by_cases h_eq : d = c
      · exact h_eq
      · rw [Function.update_of_ne h_eq, ← Option.some.inj h_c] at h_d
        exact h_owner d h_d
    by_cases h_aid : a = id
    · exact h_aid.trans (h_id a b h_a h_b h_aid).symm
    · have h_bid : b ≠ id := fun h_bid => h_aid (h_id b a h_b h_a h_bid)
      rw [Function.update_of_ne h_aid] at h_a
      rw [Function.update_of_ne h_bid] at h_b
      exact h.owner a b k h_a h_b

/-- A watcher is stopped. Its set is taken from the map when it was the last one in it; no
    other set can stand there, as nobody but an open watcher is in a set. -/
theorem WatchInv.unwatch (h : WatchInv service history watches) {n : Nat} {w : Watch ρ}
    (h_w : watches[n]? = some w) (h_open : w.stopped = none) :
    WatchInv (Tasks.unwatch service w.id n w.set) history
      (watches.set n { w with stopped := some (history w.id).length }) := by
  have h_mem := List.mem_of_getElem? h_w
  obtain ⟨h_listed, -⟩ := h.listed n w h_w h_open
  have h_lt := h.bound _ _ h_listed
  have h_n : n < watches.length := (List.getElem?_eq_some_iff.mp h_w).1
  generalize h_left : (service.sets.getD w.set []).filter (· != n) = left
  have h_sets : ∀ k, (Tasks.unwatch service w.id n w.set).sets.getD k [] =
      if k = w.set then left else service.sets.getD k [] := by
    intro k
    rw [Tasks.unwatch, h_left]
    dsimp only
    rw [List.getD_eq_getElem?_getD, List.getD_eq_getElem?_getD, List.getElem?_set]
    by_cases h_k : w.set = k
    · simp [← h_k, h_lt]
    · have h_k' : ¬ k = w.set := fun h_eq => h_k h_eq.symm
      simp [h_k, h_k']
  have h_mem_left : ∀ m, m ∈ left ↔ m ∈ service.sets.getD w.set [] ∧ m ≠ n := by
    intro m
    rw [← h_left, List.mem_filter, bne_iff_ne]
  have h_sub : ∀ other k, (Tasks.unwatch service w.id n w.set).watchers other = some k →
      service.watchers other = some k := by
    intro other k h_k
    rw [Tasks.unwatch, h_left] at h_k
    dsimp only at h_k
    split at h_k
    · by_cases h_other : other = w.id
      · rw [h_other, Function.update_self] at h_k
        cases h_k
      · rwa [Function.update_of_ne h_other] at h_k
    · exact h_k
  have h_from : ∀ v ∈ watches.set n { w with stopped := some (history w.id).length },
      v ∈ watches ∨ v = { w with stopped := some (history w.id).length } :=
    fun v h_v => List.mem_or_eq_of_mem_set h_v
  have h_others : ∀ m v, (watches.set n { w with stopped := some (history w.id).length })[m]? =
      some v → v.stopped = none → m ≠ n ∧ watches[m]? = some v := by
    intro m v h_v h_none
    by_cases h_m : n = m
    · rw [← h_m, List.getElem?_set_self h_n] at h_v
      rw [← Option.some.inj h_v] at h_none
      cases h_none
    · rw [List.getElem?_set_ne h_m] at h_v
      exact ⟨fun h_eq => h_m h_eq.symm, h_v⟩
  refine ⟨fun v h_v => ?_, fun v h_v u h_u => ?_, fun v h_v => ?_, fun m v h_v h_none => ?_,
    fun k m h_m => ?_, fun k => ?_, fun other k h_k => ?_, fun a b k h_a h_b => ?_⟩
  · obtain h_v | rfl := h_from v h_v
    · exact h.since v h_v
    · exact h.since w h_mem
  · obtain h_v | rfl := h_from v h_v
    · exact h.stopped v h_v u h_u
    · exact Nat.le_of_eq (Option.some.inj h_u).symm
  · obtain h_v | rfl := h_from v h_v
    · exact h.told v h_v
    · have h_told := h.told w h_mem
      rw [Watch.expected, h_open] at h_told
      rw [Watch.expected]
      dsimp only
      rw [List.take_of_length_le (Nat.le_of_eq List.length_drop), h_told]
  · obtain ⟨h_ne, h_old⟩ := h_others m v h_v h_none
    obtain ⟨h_watchers, h_set⟩ := h.listed m v h_old h_none
    rw [h_sets]
    by_cases h_same : v.set = w.set
    · have h_in : m ∈ left := (h_mem_left m).mpr ⟨h_same ▸ h_set, h_ne⟩
      rw [if_pos h_same]
      refine ⟨?_, h_in⟩
      rw [Tasks.unwatch, h_left]
      dsimp only
      rw [if_neg fun h_empty => by
        rw [List.isEmpty_iff.mp h_empty] at h_in
        cases h_in]
      exact h_watchers
    · rw [if_neg h_same]
      refine ⟨?_, h_set⟩
      have h_id : v.id ≠ w.id := by
        intro h_id
        rw [h_id] at h_watchers
        exact h_same (Option.some.inj (h_watchers.symm.trans h_listed))
      rw [Tasks.unwatch]
      dsimp only
      split
      · rwa [Function.update_of_ne h_id]
      · exact h_watchers
  · rw [h_sets] at h_m
    have h_old : m ∈ service.sets.getD k [] ∧ (k = w.set → m ≠ n) := by
      split at h_m
      · rename_i h_k
        rw [h_k]
        exact ⟨((h_mem_left m).mp h_m).1, fun _ => ((h_mem_left m).mp h_m).2⟩
      · rename_i h_k
        exact ⟨h_m, fun h_eq => absurd h_eq h_k⟩
    obtain ⟨v, h_v, h_none, h_set⟩ := h.members k m h_old.1
    have h_ne : m ≠ n := by
      intro h_eq
      rw [h_eq] at h_v
      rw [← Option.some.inj (h_w.symm.trans h_v)] at h_set
      exact h_old.2 h_set.symm h_eq
    refine ⟨v, ?_, h_none, h_set⟩
    rw [List.getElem?_set_ne fun h_eq => h_ne h_eq.symm]
    exact h_v
  · rw [h_sets]
    split
    · rw [← h_left]
      exact (h.once _).filter _
    · exact h.once k
  · rw [Tasks.unwatch]
    dsimp only
    rw [List.length_set]
    exact h.bound other k (h_sub other k h_k)
  · exact h.owner a b k (h_sub a k h_a) (h_sub b k h_b)

end Watches

/-! ### Tasks -/

section Steps

variable {s s' : Panel ρ} {id : String} {now : Nat}

/-- What says of the tasks nothing but these. -/
theorem TaskInv.same (h : TaskInv s) (h_tasks : s'.service.tasks = s.service.tasks)
    (h_history : s'.history = s.history) (h_removed : s'.removed = s.removed)
    (h_cleaned : s'.cleaned = s.cleaned) (h_running : ∀ id ∈ s'.running, s'.history id ≠ [])
    (h_settled : s'.settledAt = s.settledAt) : TaskInv s' := by
  refine ⟨?_, fun id h_known h_none => ?_, h_running, ?_⟩
  · rw [h_tasks, h_history]
    exact h.current
  · rw [h_history] at h_known
    rw [h_tasks] at h_none
    have h_gone := h.gone id h_known h_none
    rw [Forgotten] at h_gone ⊢
    rwa [h_removed, h_history, h_cleaned]
  · rw [h_settled, h_history, h_tasks]
    exact h.settled

theorem inv_start : Inv (start : Panel ρ) := by
  refine ⟨⟨?_, ?_, ?_, ?_⟩, ⟨?_, ?_, ?_, ?_⟩, ⟨?_, ?_, ?_, ?_, ?_, ?_, ?_, ?_⟩⟩
  · intro id task h
    cases h
  · intro id h
    exact absurd rfl h
  · intro id h
    cases h
  · intro id n h
    cases h
  · intro p h
    cases h
  · intro p h
    cases h
  · intro id n
    constructor
    · intro h
      cases h
    · rintro ⟨p, h, -⟩
      cases h
  · intro id
    exact List.nodup_nil
  · intro w h
    cases h
  · intro w h
    cases h
  · intro w h
    cases h
  · intro n w h
    cases h
  · intro h n h_n
    cases h_n
  · intro h
    exact List.nodup_nil
  · intro id h h_id
    cases h_id
  · intro id id' h h_id
    cases h_id

theorem inv_create (h : Inv s) (now : Nat) (h_new : s.history id = [])
    (h_watch : ∀ w ∈ s.watches, w.id ≠ id) :
    Inv (s.create id now) := by
  have h_history : (s.create id now).history = Function.update s.history id
      [{ id, status := .pending, progress := 0, message := none, result := none
         error := none, createdAt := now, updatedAt := now }] := by
    rw [Panel.create, createTask]
    dsimp only
    rw [h_new, Function.update_self]
    rfl
  have h_tasks : (s.create id now).service.tasks = Function.update s.service.tasks id
      (some { id, status := .pending, progress := 0, message := none, result := none
              error := none, createdAt := now, updatedAt := now }) := rfl
  refine ⟨⟨fun other task h_task => ?_, fun other h_known h_none => ?_, fun other h_going => ?_,
    fun other n h_n => ?_⟩, ?_, ?_⟩
  · rw [h_tasks] at h_task
    rw [h_history]
    by_cases h_other : other = id
    · rw [h_other, Function.update_self] at h_task ⊢
      rw [← Option.some.inj h_task]
      exact ⟨rfl, rfl⟩
    · rw [Function.update_of_ne h_other] at h_task ⊢
      exact h.tasks.current other task h_task
  · rw [h_history] at h_known
    rw [h_tasks] at h_none
    by_cases h_other : other = id
    · rw [h_other, Function.update_self] at h_none
      cases h_none
    · rw [Function.update_of_ne h_other] at h_known h_none
      refine (h.tasks.gone other h_known h_none).imp (fun h_removed => h_removed) ?_
      rw [h_history, Function.update_of_ne h_other]
      exact fun h_last => h_last
  · rw [h_history]
    by_cases h_other : other = id
    · rw [h_other, Function.update_self]
      exact List.cons_ne_nil _ _
    · rw [Function.update_of_ne h_other]
      exact h.tasks.going other h_going
  · obtain ⟨h_known, h_or⟩ := h.tasks.settled other n h_n
    have h_other : other ≠ id := fun h_eq => h_known (h_eq ▸ h_new)
    rw [h_history, h_tasks, Function.update_of_ne h_other, Function.update_of_ne h_other]
    exact ⟨h_known, h_or⟩
  · rw [h_history]
    exact h.promises.created rfl h_new
  · rw [h_history]
    exact h.watches.created rfl rfl h_watch

theorem inv_update (h : Inv s) (id : String) (data : TaskUpdate ρ) (now : Nat) :
    Inv (s.update id data now) := by
  cases h_task : s.service.tasks id with
  | none =>
    rw [update_missing h_task]
    exact h
  | some task =>
    have h_id := (h.tasks.current id task h_task).1
    rw [update_eq h_task h_id]
    refine ⟨⟨fun other t h_t => ?_, fun other h_known h_none => ?_, fun other h_going => ?_,
      fun other n h_n => ?_⟩, h.promises.update rfl, h.watches.update rfl rfl⟩
    · dsimp only at h_t ⊢
      by_cases h_other : other = id
      · rw [h_other, Function.update_self] at h_t ⊢
        rw [← Option.some.inj h_t, List.getLast?_concat]
        exact ⟨h_id, rfl⟩
      · rw [Function.update_of_ne h_other] at h_t ⊢
        exact h.tasks.current other t h_t
    · dsimp only at h_known h_none
      by_cases h_other : other = id
      · rw [h_other, Function.update_self] at h_none
        cases h_none
      · rw [Function.update_of_ne h_other] at h_known h_none
        refine (h.tasks.gone other h_known h_none).imp (fun h_removed => h_removed) ?_
        dsimp only
        rw [Function.update_of_ne h_other]
        exact fun h_last => h_last
    · dsimp only
      by_cases h_other : other = id
      · rw [h_other, Function.update_self]
        exact List.append_ne_nil_of_right_ne_nil _ (List.cons_ne_nil _ _)
      · rw [Function.update_of_ne h_other]
        exact h.tasks.going other h_going
    · obtain ⟨h_known, h_or⟩ := h.tasks.settled other n h_n
      dsimp only
      by_cases h_other : other = id
      · rw [h_other] at h_or ⊢
        rw [Function.update_self]
        refine ⟨List.append_ne_nil_of_right_ne_nil _ (List.cons_ne_nil _ _), .inr ?_⟩
        obtain h_none | ⟨k, t, h_k, h_t, h_finished⟩ := h_or
        · rw [h_task] at h_none
          cases h_none
        · refine ⟨k, t, h_k, ?_, h_finished⟩
          rw [List.getElem?_append_left (List.getElem?_eq_some_iff.mp h_t).1]
          exact h_t
      · rw [Function.update_of_ne h_other, Function.update_of_ne h_other]
        exact ⟨h_known, h_or⟩

theorem inv_waitFor (h : Inv s) : Inv (s.waitFor id) := by
  have h_last : ∀ task, s.service.tasks id = some task →
      (s.history id).length - 1 < (s.history id).length ∧
        (s.history id).drop ((s.history id).length - 1) = [task] := by
    intro task h_task
    obtain ⟨old, h_old⟩ := List.getLast?_eq_some_iff.mp (h.tasks.current id task h_task).2
    rw [h_old, List.length_append, List.length_singleton, Nat.add_sub_cancel]
    exact ⟨Nat.lt_succ_self _, List.drop_left⟩
  cases h_task : s.service.tasks id with
  | none =>
    have h_eq : s.waitFor id = { s with
        promises := s.promises ++
          [{ id, since := none, answers := [.rejected ("Task " ++ id ++ " not found")] }] } := by
      rw [Panel.waitFor, waitFor, h_task]
    rw [h_eq]
    exact ⟨h.tasks.same rfl rfl rfl rfl h.tasks.going rfl,
      h.promises.waitFor (fun k h_k => by cases h_k) rfl rfl, h.watches⟩
  | some task =>
    obtain ⟨h_lt, h_drop⟩ := h_last task h_task
    have h_since : ∀ k, some ((s.history id).length - 1) = some k → k < (s.history id).length := by
      intro k h_k
      rw [← Option.some.inj h_k]
      exact h_lt
    cases h_finished : task.finished with
    | true =>
      have h_eq : s.waitFor id = { s with
          promises := s.promises ++
            [{ id, since := some ((s.history id).length - 1), answers := [.resolved task] }] } := by
        rw [Panel.waitFor, waitFor, h_task]
        dsimp only
        rw [if_pos h_finished]
      rw [h_eq]
      refine ⟨h.tasks.same rfl rfl rfl rfl h.tasks.going rfl,
        h.promises.waitFor h_since ?_ rfl, h.watches⟩
      rw [Promise.expected]
      dsimp only
      rw [h_drop, List.find?_singleton, if_pos h_finished]
      rfl
    | false =>
      have h_eq : s.waitFor id = { s with
          service := { s.service with
            waiters := Function.update s.service.waiters id
              (s.service.waiters id ++ [s.promises.length]) }
          promises := s.promises ++
            [{ id, since := some ((s.history id).length - 1), answers := [] }] } := by
        rw [Panel.waitFor, waitFor, h_task]
        dsimp only
        rw [h_finished]
        rfl
      rw [h_eq]
      refine ⟨h.tasks.same rfl rfl rfl rfl h.tasks.going rfl,
        h.promises.waitFor h_since ?_ rfl, h.watches.same rfl rfl⟩
      rw [Promise.expected]
      dsimp only
      rw [h_drop, List.find?_singleton, h_finished]
      rfl

/-- Neither an update nor a creation takes a history away. -/
theorem history_update {data : TaskUpdate ρ} {other : String} (h : Inv s)
    (h_known : s.history other ≠ []) : (s.update id data now).history other ≠ [] := by
  cases h_task : s.service.tasks id with
  | none =>
    rw [update_missing h_task]
    exact h_known
  | some task =>
    rw [update_eq h_task (h.tasks.current id task h_task).1]
    dsimp only
    by_cases h_other : other = id
    · rw [h_other, Function.update_self]
      exact List.append_ne_nil_of_right_ne_nil _ (List.cons_ne_nil _ _)
    · rwa [Function.update_of_ne h_other]

theorem inv_settled (h : Inv s) (h_going : id ∈ s.running) (result : Except Thrown ρ) :
    Inv { s.update id (outcome result) now with
      running := s.running.erase id
      settledAt := Function.update s.settledAt id
        (some ((s.update id (outcome result) now).history id).length) } := by
  have h_inv := inv_update h id (outcome result) now
  refine ⟨⟨h_inv.tasks.current, h_inv.tasks.gone, fun other h_other => ?_, fun other n h_n => ?_⟩,
    h_inv.promises, h_inv.watches⟩
  · exact history_update h (h.tasks.going other (List.mem_of_mem_erase h_other))
  · by_cases h_other : other = id
    · rw [h_other]
      refine ⟨history_update h (h.tasks.going id h_going), ?_⟩
      rw [h_other] at h_n
      dsimp only at h_n ⊢
      rw [Function.update_self] at h_n
      cases h_task : s.service.tasks id with
      | none =>
        rw [update_missing h_task]
        exact .inl h_task
      | some task =>
        rw [update_eq h_task (h.tasks.current id task h_task).1] at h_n ⊢
        simp only [Function.update_self] at h_n ⊢
        rw [List.length_append, List.length_singleton] at h_n
        refine .inr ⟨_, _, (Option.some.inj h_n).symm, List.getElem?_concat_length, ?_⟩
        cases result <;> rfl
    · dsimp only at h_n
      rw [Function.update_of_ne h_other] at h_n
      refine h_inv.tasks.settled other n ?_
      rw [← h_n]
      cases h_task : s.service.tasks id with
      | none => rw [update_missing h_task]
      | some task => rw [update_eq h_task (h.tasks.current id task h_task).1]

theorem inv_remove (h : Inv s) :
    Inv { s with service := remove s.service id, removed := Function.update s.removed id true } := by
  refine ⟨⟨fun other task h_task => ?_, fun other h_known h_none => ?_, h.tasks.going,
    fun other n h_n => ?_⟩, h.promises.same rfl, h.watches.same rfl rfl⟩
  · rw [remove] at h_task
    dsimp only at h_task
    by_cases h_other : other = id
    · rw [h_other, Function.update_self] at h_task
      cases h_task
    · rw [Function.update_of_ne h_other] at h_task
      exact h.tasks.current other task h_task
  · rw [Forgotten]
    dsimp only
    by_cases h_other : other = id
    · rw [h_other, Function.update_self]
      exact .inl rfl
    · rw [remove] at h_none
      dsimp only at h_none
      rw [Function.update_of_ne h_other] at h_none ⊢
      exact h.tasks.gone other h_known h_none
  · obtain ⟨h_known, h_or⟩ := h.tasks.settled other n h_n
    refine ⟨h_known, h_or.imp (fun h_none => ?_) (fun h_finished => h_finished)⟩
    rw [remove]
    dsimp only
    by_cases h_other : other = id
    · rw [h_other, Function.update_self]
    · rwa [Function.update_of_ne h_other]

theorem inv_cleanup (h : Inv s) :
    Inv { s with service := cleanupCompleted s.service now, cleaned := s.cleaned ++ [now] } := by
  refine ⟨⟨fun other task h_task => ?_, fun other h_known h_none => ?_, h.tasks.going,
    fun other n h_n => ?_⟩, h.promises.same rfl, h.watches.same rfl rfl⟩
  · exact h.tasks.current other task (Option.filter_eq_some_iff.mp h_task).1
  · cases h_task : s.service.tasks other with
    | none =>
      obtain h_removed | ⟨task, h_last, then_, h_then, h_expired⟩ :=
        h.tasks.gone other h_known h_task
      · exact .inl h_removed
      · exact .inr ⟨task, h_last, then_, List.mem_append_left _ h_then, h_expired⟩
    | some task =>
      have h_filter : (some task).filter (fun task => !task.expired now) = none := h_task ▸ h_none
      have h_expired : task.expired now = true := by simpa using h_filter
      exact .inr ⟨task, (h.tasks.current other task h_task).2, now,
        List.mem_append_right _ (List.mem_singleton_self _), h_expired⟩
  · obtain ⟨h_known, h_or⟩ := h.tasks.settled other n h_n
    refine ⟨h_known, h_or.imp (fun h_none => ?_) (fun h_finished => h_finished)⟩
    show (s.service.tasks other).filter _ = none
    rw [h_none]
    rfl

theorem Inv.step (h : Inv s) {event : Event ρ} (h_sound : sound s event = true)
    (h_step : Tasks.step s event = some s') : Inv s' := by
  cases event with
  | createTask id now =>
    obtain rfl := Option.some.inj h_step
    rw [sound, Bool.and_eq_true, List.isEmpty_iff, List.all_eq_true] at h_sound
    exact inv_create h now h_sound.1 fun w h_w => bne_iff_ne.mp (h_sound.2 w h_w)
  | updateTask id data now =>
    obtain rfl := Option.some.inj h_step
    exact inv_update h id data now
  | runTask id now =>
    obtain rfl := Option.some.inj h_step
    rw [sound, Bool.and_eq_true, List.isEmpty_iff, List.all_eq_true] at h_sound
    have h_created := inv_create h now h_sound.1 fun w h_w =>
      bne_iff_ne.mp (h_sound.2 w h_w)
    have h_updated := inv_update h_created id { status := some .running } now
    refine ⟨h_updated.tasks.same rfl rfl rfl rfl (fun other h_other => ?_) rfl,
      h_updated.promises, h_updated.watches⟩
    refine history_update h_created ?_
    obtain h_other | h_other := List.mem_append.mp h_other
    · exact h_created.tasks.going other h_other
    · rw [List.mem_singleton.mp h_other, Panel.create]
      dsimp only
      rw [h_sound.1, Function.update_self]
      show [] ++ (Function.update s.service.tasks id _ id).toList ≠ []
      rw [Function.update_self]
      exact List.cons_ne_nil _ _
  | settled id result now =>
    obtain ⟨h_going, h_eq⟩ := Option.ite_none_right_eq_some.mp h_step
    obtain rfl := Option.some.inj h_eq
    exact inv_settled h (by simpa using h_going) result
  | waitFor id =>
    obtain rfl := Option.some.inj h_step
    exact inv_waitFor h
  | watch id =>
    obtain rfl := Option.some.inj h_step
    exact ⟨h.tasks.same (by rw [Panel.watch, tasks_watch]) rfl rfl rfl h.tasks.going rfl,
      h.promises.same waiters_watch, h.watches.watch⟩
  | unwatch n =>
    obtain ⟨w, h_w, rfl⟩ := Option.map_eq_some_iff.mp h_step
    rw [sound, h_w] at h_sound
    exact ⟨h.tasks.same rfl rfl rfl rfl h.tasks.going rfl, h.promises.same rfl,
      h.watches.unwatch h_w (Option.isNone_iff_eq_none.mp h_sound)⟩
  | remove id =>
    obtain rfl := Option.some.inj h_step
    exact inv_remove h
  | cleanupCompleted now =>
    obtain rfl := Option.some.inj h_step
    exact inv_cleanup h

/-- While a promise waits, no version from its call on is finished. -/
theorem Inv.unfinished (h : Inv s) {p : Promise ρ} (h_p : p ∈ s.promises) (h_wait : p.answers = []) :
    ∃ k, p.since = some k ∧ k < (s.history p.id).length ∧
      ∀ i task, k ≤ i → (s.history p.id)[i]? = some task → task.finished = false := by
  have h_told := h.promises.told p h_p
  rw [h_wait, Promise.expected] at h_told
  cases h_since : p.since with
  | none =>
    rw [h_since] at h_told
    cases h_told
  | some k =>
    rw [h_since] at h_told
    have h_find : ((s.history p.id).drop k).find? (·.finished) = none := by
      simpa using h_told.symm
    refine ⟨k, rfl, h.promises.since p h_p k h_since, fun i task h_i h_task => ?_⟩
    have h_drop : task ∈ (s.history p.id).drop k := by
      apply List.mem_of_getElem? (i := i - k)
      rw [List.getElem?_drop, Nat.add_sub_cancel' h_i]
      exact h_task
    simpa using List.find?_eq_none.mp h_find task h_drop

/-- A promise waits only for a task that is there and not finished, or that was removed by
    hand: a cleanup takes no task that somebody waits for. -/
theorem Inv.waits_for (h : Inv s) {p : Promise ρ} (h_p : p ∈ s.promises) (h_wait : p.answers = []) :
    (∃ task, s.service.tasks p.id = some task ∧ task.finished = false) ∨
      s.removed p.id = true := by
  obtain ⟨k, -, h_lt, h_unfinished⟩ := h.unfinished h_p h_wait
  have h_last : ∀ task, (s.history p.id).getLast? = some task → task.finished = false := by
    intro task h_task
    rw [List.getLast?_eq_getElem?] at h_task
    exact h_unfinished _ task (by omega) h_task
  cases h_task : s.service.tasks p.id with
  | some task => exact .inl ⟨task, rfl, h_last task (h.tasks.current _ task h_task).2⟩
  | none =>
    have h_known : s.history p.id ≠ [] := List.ne_nil_of_length_pos (by omega)
    obtain h_removed | ⟨task, h_task, now, -, h_expired⟩ := h.tasks.gone _ h_known h_task
    · exact .inr h_removed
    · rw [ITask.expired, h_last task h_task] at h_expired
      cases h_expired

end Steps

end Panel

end Kubek.Tasks
