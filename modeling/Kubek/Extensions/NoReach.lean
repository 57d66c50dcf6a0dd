/-
  Kubek.Extensions.NoReach

  What is left of an extension that is not active.

  An activation leaves listeners on the bus, routes, commands and permissions, and three
  exits take them back: `deactivate` runs the dispose list and drops the rest, an `activate`
  that throws runs the dispose list and drops the permissions, a module that does not load
  drops nothing. `servers.onLog` never puts its unsubscriber on the dispose list, so a log
  listener survives even `deactivate` (`onLog_outlives_disable`).

  `cleans` asks of each exit that nothing it forgets is there, and of an activation that it
  begins while no other one of the same extension is under way. Every run that stays inside
  it leaves no reach of an inactive extension, and what an active one has is all of the
  activation that is loaded (`settled_of_reachableUnder`).
-/

import Kubek.Extensions.Manager

namespace Kubek.Extensions

open State Transition

/-! ## The property -/

/-- What the extension has in the panel is of the activation `owner`, and its permissions are
    among `declares`. -/
structure Owned (s : State) (id : ExtId) (owner : Option Nat) (declares : List String) :
    Prop where
  listeners : ∀ l ∈ s.bus, l.extId = id → some l.activation = owner
  routes : ∀ c ∈ s.routes, c.extId = id → some c.activation = owner
  commands : ∀ c ∈ s.commands, c.extId = id → some c.activation = owner
  permissions : ∀ p ∈ s.permissions, p.source = id → p.key ∈ declares

/-- No listener, route, command or permission of the extension. -/
def NoReach (s : State) (id : ExtId) : Prop := Owned s id none []

/-- Inactive and without reach, or all that it has is of the loaded activation. -/
structure Settled (s : State) (id : ExtId) : Prop where
  inactive : s.get id = none → NoReach s id
  active : ∀ loaded, s.get id = some loaded →
    Owned s id (some loaded.activation) loaded.record.manifest.declares

/-- The extension whose `activate` the task is in. -/
def Task.opens : Task → Option ExtId
  | .loading _ record _ | .running _ record _ | .ran _ record _ _ => some record.id
  | _ => none

/-- An activation of the extension is under way. -/
def State.opening (s : State) (id : ExtId) : Bool := s.tasks.any fun t => t.opens = some id

/-! ## The condition -/

/-- No listener of the extension is without an unsubscriber on the dispose list. -/
def State.disposesAll (s : State) (id : ExtId) : Bool :=
  s.bus.all fun l => l.extId ≠ id || l.disposable

/-- An activation begins while no other one of the extension is under way, and where one ends
    nothing is there that this exit does not take back. -/
def cleans (s : State) : Event → Bool
  | .enable id => !s.opening id
  | .boot =>
      ((s.records.filter fun r => r.enabled && r.status ≠ .error).head?).all fun record =>
        !s.opening record.id
  | .openerResumes i =>
      match s.taskAt i with
      | .activated (.boot (record :: _)) => !s.opening record.id
      | _ => true
  | .moduleThrows i =>
      match s.taskAt i with
      | .loading _ record _ => s.permissions.all fun p => p.source ≠ record.id
      | _ => true
  | .activateResumes i =>
      match s.taskAt i with
      | .ran _ record _ true =>
          s.disposesAll record.id && s.routes.all (fun c => c.extId ≠ record.id) &&
            s.commands.all fun c => c.extId ≠ record.id
      | _ => true
  | .deactivateResumes i =>
      match s.taskAt i with
      | .deactivating closer loaded =>
          s.disposesAll closer.id && (s.get closer.id).all fun l => l = loaded
      | _ => true
  | _ => true

/-- The manager from its start on. -/
def manager : Machine State Event where
  init s := s.loaded = [] ∧ s.routes = [] ∧ s.commands = [] ∧ s.permissions = [] ∧
    s.bus = [] ∧ s.tasks = []
  step := step

section

variable {s s' : State} {id : ExtId}

/-! ## What a step leaves alone -/

/-- For the extension, nothing is new and the same is loaded. -/
structure Keeps (s s' : State) (id : ExtId) : Prop where
  get : s'.get id = s.get id
  listeners : ∀ l ∈ s'.bus, l.extId = id → l ∈ s.bus
  routes : ∀ c ∈ s'.routes, c.extId = id → c ∈ s.routes
  commands : ∀ c ∈ s'.commands, c.extId = id → c ∈ s.commands
  permissions : ∀ p ∈ s'.permissions, p.source = id → p ∈ s.permissions

theorem Keeps.refl (s : State) (id : ExtId) : Keeps s s id :=
  ⟨rfl, fun _ h _ => h, fun _ h _ => h, fun _ h _ => h, fun _ h _ => h⟩

theorem Keeps.trans {s'' : State} (h : Keeps s s' id) (h' : Keeps s' s'' id) : Keeps s s'' id where
  get := h'.get.trans h.get
  listeners l h_l h_id := h.listeners l (h'.listeners l h_l h_id) h_id
  routes c h_c h_id := h.routes c (h'.routes c h_c h_id) h_id
  commands c h_c h_id := h.commands c (h'.commands c h_c h_id) h_id
  permissions p h_p h_id := h.permissions p (h'.permissions p h_p h_id) h_id

theorem Owned.keeps {owner : Option Nat} {declares : List String} (hs : Owned s id owner declares)
    (h : Keeps s s' id) : Owned s' id owner declares where
  listeners l h_l h_id := hs.listeners l (h.listeners l h_l h_id) h_id
  routes c h_c h_id := hs.routes c (h.routes c h_c h_id) h_id
  commands c h_c h_id := hs.commands c (h.commands c h_c h_id) h_id
  permissions p h_p h_id := hs.permissions p (h.permissions p h_p h_id) h_id

theorem Settled.keeps (hs : Settled s id) (h : Keeps s s' id) : Settled s' id where
  inactive h_get := (hs.inactive (h.get ▸ h_get)).keeps h
  active loaded h_get := (hs.active loaded (h.get ▸ h_get)).keeps h

/-- Where no activation owns anything it may be said to be of any. -/
theorem Owned.of_none {declares : List String} (h : Owned s id none declares)
    (owner : Option Nat) : Owned s id owner declares where
  listeners l h_l h_id := absurd (h.listeners l h_l h_id) (by simp)
  routes c h_c h_id := absurd (h.routes c h_c h_id) (by simp)
  commands c h_c h_id := absurd (h.commands c h_c h_id) (by simp)
  permissions := h.permissions

/-! ## Operations -/

theorem get_add (s : State) (ext : LoadedExtension) :
    (s.add ext).get ext.record.id = some ext := by
  have h_none : (s.loaded.filter (·.record.id ≠ ext.record.id)).find?
      (fun l => l.record.id = ext.record.id) = none := by
    rw [List.find?_eq_none]
    intro l h_l
    simpa using (List.mem_filter.mp h_l).2
  show (s.loaded.filter _ ++ [ext]).find? _ = some ext
  rw [List.find?_append, h_none]
  simp

/-- Taking out what has another key does not change what is found. -/
theorem find_filter_of_ne {k : ExtId} (h : id ≠ k) (loaded : List LoadedExtension) :
    (loaded.filter (·.record.id ≠ k)).find? (fun l => l.record.id = id) =
      loaded.find? (fun l => l.record.id = id) := by
  rw [List.find?_filter]
  congr 1
  funext l
  by_cases h_l : l.record.id = id
  · simp [h_l, h]
  · simp [h_l]

theorem keeps_add {ext : LoadedExtension} (h : id ≠ ext.record.id) : Keeps s (s.add ext) id where
  get := by
    have h_ext : ¬ ext.record.id = id := fun h_eq => h h_eq.symm
    show (s.loaded.filter _ ++ [ext]).find? _ = s.loaded.find? _
    rw [List.find?_append, find_filter_of_ne h]
    simp [h_ext]
  listeners _ h_l _ := h_l
  routes _ h_c _ := h_c
  commands _ h_c _ := h_c
  permissions _ h_p _ := h_p

theorem keeps_writeRecord (s : State) (k id : ExtId) (f : ExtensionRecord → ExtensionRecord) :
    Keeps s (s.writeRecord k f) id :=
  ⟨rfl, fun _ h _ => h, fun _ h _ => h, fun _ h _ => h, fun _ h _ => h⟩

theorem keeps_nextActivation (s : State) (id : ExtId) :
    Keeps s { s with nextActivation := s.nextActivation + 1 } id :=
  ⟨rfl, fun _ h _ => h, fun _ h _ => h, fun _ h _ => h, fun _ h _ => h⟩

theorem keeps_upsert (s : State) (record : ExtensionRecord) (id : ExtId) :
    Keeps s (s.upsert record) id := by
  rw [upsert]
  split
  · exact ⟨rfl, fun _ h _ => h, fun _ h _ => h, fun _ h _ => h, fun _ h _ => h⟩
  · exact ⟨rfl, fun _ h _ => h, fun _ h _ => h, fun _ h _ => h, fun _ h _ => h⟩

theorem keeps_runDispose (s : State) (activation : Nat) (id : ExtId) :
    Keeps s (s.runDispose activation) id :=
  ⟨rfl, fun _ h _ => (List.mem_filter.mp h).1, fun _ h _ => h, fun _ h _ => h, fun _ h _ => h⟩

theorem keeps_unregisterPermissions (s : State) (k id : ExtId) :
    Keeps s (s.unregisterPermissions k) id :=
  ⟨rfl, fun _ h _ => h, fun _ h _ => h, fun _ h _ => h, fun _ h _ => (List.mem_filter.mp h).1⟩

/-- Nothing is loaded under the id after `registry.remove`. -/
theorem get_unwind (s : State) (id : ExtId) : (s.unwind id).get id = none := by
  show (s.loaded.filter _).find? _ = none
  rw [List.find?_eq_none]
  intro l h_l
  simpa using (List.mem_filter.mp h_l).2

theorem keeps_unwind {k : ExtId} (h_get : (s.unwind k).get id = s.get id) :
    Keeps s (s.unwind k) id where
  get := h_get
  listeners _ h_l _ := h_l
  routes _ h_c _ := (List.mem_filter.mp h_c).1
  commands _ h_c _ := (List.mem_filter.mp h_c).1
  permissions _ h_p _ := (List.mem_filter.mp h_p).1

theorem keeps_unwind_of_ne {k : ExtId} (h : id ≠ k) : Keeps s (s.unwind k) id :=
  keeps_unwind (find_filter_of_ne h s.loaded)

/-- `deactivate` takes back all but the listeners. -/
theorem noReach_unwind (h : ∀ l ∈ s.bus, l.extId ≠ id) : NoReach (s.unwind id) id where
  listeners l h_l h_id := absurd h_id (h l h_l)
  routes c h_c h_id := absurd h_id (by simpa using (List.mem_filter.mp h_c).2)
  commands c h_c h_id := absurd h_id (by simpa using (List.mem_filter.mp h_c).2)
  permissions p h_p h_id := absurd h_id (by simpa using (List.mem_filter.mp h_p).2)

/-- The dispose list of an activation that has no other listeners takes back all of them. -/
theorem bus_runDispose {activation : Nat} (h_all : s.disposesAll id = true)
    (h_own : ∀ l ∈ s.bus, l.extId = id → l.activation = activation) :
    ∀ l ∈ (s.runDispose activation).bus, l.extId ≠ id := by
  intro l h_l h_id
  obtain ⟨h_mem, h_stays⟩ := List.mem_filter.mp h_l
  have h_disposable : l.disposable = true := by
    simpa [h_id] using List.all_eq_true.mp h_all l h_mem
  have h_not : ¬ (l.activation = activation ∧ l.disposable = true) := of_decide_eq_true h_stays
  exact h_not ⟨h_own l h_mem h_id, h_disposable⟩

/-- A context adds to what is of its own activation only. -/
theorem owned_callContext {record : ExtensionRecord} {activation : Nat} (call : ExtCall)
    {declares : List String} (hs : Owned s record.id (some activation) declares) :
    Owned (s.callContext record activation call) record.id (some activation) declares := by
  have h_subscribe : ∀ event disposable,
      Owned (s.subscribe record.id activation event disposable) record.id (some activation)
        declares := by
    intro event disposable
    refine ⟨fun l h_l h_id => ?_, hs.routes, hs.commands, hs.permissions⟩
    rcases List.mem_append.mp h_l with h_old | h_new
    · exact hs.listeners l h_old h_id
    · rw [List.mem_singleton.mp h_new]
  cases call with
  | on event =>
    show Owned (if _ then _ else _) _ _ _
    split
    · exact h_subscribe event true
    · exact hs
  | onLog =>
    show Owned (if _ then _ else _) _ _ _
    split
    · exact h_subscribe .serverLog false
    · exact hs
  | off serial =>
    exact ⟨fun l h_l => hs.listeners l (List.mem_filter.mp h_l).1, hs.routes, hs.commands,
      hs.permissions⟩
  | registerRoutes routes =>
    show Owned (if _ then _ else _) _ _ _
    split
    · refine ⟨hs.listeners, fun c h_c h_id => ?_, hs.commands, hs.permissions⟩
      rcases List.mem_append.mp h_c with h_old | h_new
      · exact hs.routes c (List.mem_filter.mp h_old).1 h_id
      · obtain ⟨route, -, rfl⟩ := List.mem_map.mp h_new
        rfl
    · exact hs
  | registerCommand command =>
    show Owned (if _ then _ else _) _ _ _
    split
    · refine ⟨hs.listeners, hs.routes, fun c h_c h_id => ?_, hs.permissions⟩
      rcases List.mem_append.mp h_c with h_old | h_new
      · exact hs.commands c h_old h_id
      · rw [List.mem_singleton.mp h_new]
    · exact hs

/-- It is the context of one extension. -/
theorem keeps_callContext {record : ExtensionRecord} (activation : Nat) (call : ExtCall)
    (h : id ≠ record.id) : Keeps s (s.callContext record activation call) id := by
  have h_ne : record.id ≠ id := fun h_eq => h h_eq.symm
  have h_subscribe : ∀ event disposable,
      Keeps s (s.subscribe record.id activation event disposable) id := by
    intro event disposable
    refine ⟨rfl, fun l h_l h_id => ?_, fun _ h _ => h, fun _ h _ => h, fun _ h _ => h⟩
    rcases List.mem_append.mp h_l with h_old | h_new
    · exact h_old
    · rw [List.mem_singleton.mp h_new] at h_id
      exact absurd h_id h_ne
  cases call with
  | on event =>
    show Keeps s (if _ then _ else _) _
    split
    · exact h_subscribe event true
    · exact .refl s id
  | onLog =>
    show Keeps s (if _ then _ else _) _
    split
    · exact h_subscribe .serverLog false
    · exact .refl s id
  | off serial =>
    exact ⟨rfl, fun _ h _ => (List.mem_filter.mp h).1, fun _ h _ => h, fun _ h _ => h,
      fun _ h _ => h⟩
  | registerRoutes routes =>
    show Keeps s (if _ then _ else _) _
    split
    · refine ⟨rfl, fun _ h _ => h, fun c h_c h_id => ?_, fun _ h _ => h, fun _ h _ => h⟩
      rcases List.mem_append.mp h_c with h_old | h_new
      · exact (List.mem_filter.mp h_old).1
      · obtain ⟨route, -, rfl⟩ := List.mem_map.mp h_new
        exact absurd h_id h_ne
    · exact .refl s id
  | registerCommand command =>
    show Keeps s (if _ then _ else _) _
    split
    · refine ⟨rfl, fun _ h _ => h, fun _ h _ => h, fun c h_c h_id => ?_, fun _ h _ => h⟩
      rcases List.mem_append.mp h_c with h_old | h_new
      · exact h_old
      · rw [List.mem_singleton.mp h_new] at h_id
        exact absurd h_id h_ne
    · exact .refl s id

theorem get_callContext (record : ExtensionRecord) (activation : Nat) (call : ExtCall) :
    (s.callContext record activation call).get = s.get := by
  funext k
  cases call with
  | off serial => rfl
  | on event | onLog | registerRoutes routes | registerCommand command =>
    show State.get (if _ then _ else _) k = _
    split <;> rfl

theorem registerPermissions_eq_some {k : ExtId} {keys : List String}
    (h : s.registerPermissions k keys = some s') :
    s' = { s with
      permissions := s.permissions.filter (fun p => p.key ∉ keys) ++
        keys.map fun key => ⟨key, k⟩ } := by
  rw [registerPermissions] at h
  split at h
  · exact absurd h (by simp)
  · exact (Option.some.inj h).symm

theorem keeps_registerPermissions {k : ExtId} {keys : List String} (h_ne : id ≠ k)
    (h : s.registerPermissions k keys = some s') : Keeps s s' id := by
  rw [registerPermissions_eq_some h]
  refine ⟨rfl, fun _ h _ => h, fun _ h _ => h, fun _ h _ => h, fun p h_p h_id => ?_⟩
  rcases List.mem_append.mp h_p with h_old | h_new
  · exact (List.mem_filter.mp h_old).1
  · obtain ⟨key, -, rfl⟩ := List.mem_map.mp h_new
    exact absurd h_id.symm h_ne

theorem owned_registerPermissions {k : ExtId} {keys : List String} (hs : NoReach s k)
    (h : s.registerPermissions k keys = some s') : Owned s' k none keys := by
  rw [registerPermissions_eq_some h]
  refine ⟨hs.listeners, hs.routes, hs.commands, fun p h_p h_id => ?_⟩
  rcases List.mem_append.mp h_p with h_old | h_new
  · exact absurd (hs.permissions p (List.mem_filter.mp h_old).1 h_id) (by simp)
  · obtain ⟨key, h_key, rfl⟩ := List.mem_map.mp h_new
    exact h_key

/-! ## The invariant -/

/-- What there is of an extension while its `activate` is under way: nothing is loaded, and
    the listeners, routes and commands are those of this activation. -/
def Task.Fits (s : State) : Task → Prop
  | .loading _ record _ =>
      s.get record.id = none ∧ Owned s record.id none record.manifest.declares
  | .running _ record activation | .ran _ record activation _ =>
      s.get record.id = none ∧ Owned s record.id (some activation) record.manifest.declares
  | _ => True

theorem Task.Fits.keeps {t : Task} (hs : t.Fits s) (h : ∀ id, Keeps s s' id) : t.Fits s' := by
  cases t with
  | loading opener record activation | running opener record activation
  | ran opener record activation failed =>
    exact ⟨(h record.id).get.trans hs.1, hs.2.keeps (h record.id)⟩
  | activated | deactivating | deactivated | building | done => trivial

/-- A task fits its extension only. -/
theorem Task.Fits.keeps_of_opens {t : Task} (hs : t.Fits s) {k : ExtId}
    (h : ∀ id, id ≠ k → Keeps s s' id) (h_k : t.opens ≠ some k) : t.Fits s' := by
  cases t with
  | loading opener record activation | running opener record activation
  | ran opener record activation failed =>
    have h_ne : record.id ≠ k := fun h_eq => h_k (congrArg some h_eq)
    exact ⟨(h record.id h_ne).get.trans hs.1, hs.2.keeps (h record.id h_ne)⟩
  | activated | deactivating | deactivated | building | done => trivial

/-- Where an extension is being activated only its task says what there is of it. -/
structure Inv (s : State) : Prop where
  alone : ∀ i j id, (s.taskAt i).opens = some id → (s.taskAt j).opens = some id → i = j
  fits : ∀ i, (s.taskAt i).Fits s
  settled : ∀ id, (∀ i, (s.taskAt i).opens ≠ some id) → Settled s id

theorem opens_of_opening (h : s.opening id = false) (i : Nat) : (s.taskAt i).opens ≠ some id := by
  intro h_opens
  have h_ne : s.taskAt i ≠ .done := by
    intro h_done
    rw [h_done] at h_opens
    exact absurd h_opens (by simp [Task.opens])
  have h_lt := Suspended.lt_of_get_ne Task.done h_ne
  have h_at : s.taskAt i = s.tasks[i] := by simp [taskAt, Suspended.get, h_lt]
  have h_none := List.any_eq_false.mp h (s.taskAt i) (h_at ▸ List.getElem_mem h_lt)
  exact h_none (by simp [h_opens])

/-- What the task `i` does for the extension `k` until its next await. -/
structure Turn (s : State) (i : Nat) (k : ExtId) (p : State × Task) : Prop where
  frame : ∀ id, id ≠ k → Keeps s p.1 id
  opens : p.2.opens = none ∨ p.2.opens = some k ∧ ∀ j, j ≠ i → (s.taskAt j).opens ≠ some k
  fits : p.2.Fits p.1
  others : ∀ j, j ≠ i → (s.taskAt j).opens = some k → (s.taskAt j).Fits p.1
  settled : p.2.opens = none → (∀ j, j ≠ i → (s.taskAt j).opens ≠ some k) → Settled p.1 k

/-- One turn of one task keeps the invariant. -/
theorem Inv.turn {i : Nat} {k : ExtId} {p : State × Task} (hs : Inv s) (h : Turn s i k p)
    (h_task : s'.taskAt = Function.update s.taskAt i p.2) (h_same : ∀ id, Keeps p.1 s' id)
    (h_old : ∀ id, (s.taskAt i).opens = some id → id = k) : Inv s' := by
  have h_at : s'.taskAt i = p.2 := by rw [h_task, Function.update_self]
  have h_else : ∀ j, j ≠ i → s'.taskAt j = s.taskAt j := fun j h_j => by
    rw [h_task, Function.update_of_ne h_j]
  have h_new : ∀ id, p.2.opens = some id →
      id = k ∧ ∀ j, j ≠ i → (s.taskAt j).opens ≠ some k := by
    intro id h_id
    rcases h.opens with h_none | ⟨h_k, h_free⟩
    · exact absurd (h_none.symm.trans h_id) (by simp)
    · exact ⟨(Option.some.inj (h_k.symm.trans h_id)).symm, h_free⟩
  refine ⟨fun j j' id h_j h_j' => ?_, fun j => ?_, fun id h_free => ?_⟩
  · by_cases h_ji : j = i
    · by_cases h_j'i : j' = i
      · exact h_ji.trans h_j'i.symm
      · rw [h_ji, h_at] at h_j
        rw [h_else j' h_j'i] at h_j'
        obtain ⟨h_id, h_others⟩ := h_new id h_j
        exact absurd (h_id ▸ h_j') (h_others j' h_j'i)
    · by_cases h_j'i : j' = i
      · rw [h_j'i, h_at] at h_j'
        rw [h_else j h_ji] at h_j
        obtain ⟨h_id, h_others⟩ := h_new id h_j'
        exact absurd (h_id ▸ h_j) (h_others j h_ji)
      · rw [h_else j h_ji] at h_j
        rw [h_else j' h_j'i] at h_j'
        exact hs.alone j j' id h_j h_j'
  · by_cases h_ji : j = i
    · rw [h_ji, h_at]
      exact h.fits.keeps h_same
    · rw [h_else j h_ji]
      by_cases h_k : (s.taskAt j).opens = some k
      · exact (h.others j h_ji h_k).keeps h_same
      · exact ((hs.fits j).keeps_of_opens h.frame h_k).keeps h_same
  · have h_others : ∀ j, j ≠ i → (s.taskAt j).opens ≠ some id := fun j h_j => by
      rw [← h_else j h_j]
      exact h_free j
    by_cases h_id : id = k
    · subst h_id
      have h_none : p.2.opens = none := by
        rcases h.opens with h_none | ⟨h_k, -⟩
        · exact h_none
        · exact absurd (h_at ▸ h_k) (h_free i)
      exact (h.settled h_none h_others).keeps (h_same id)
    · have h_idle : ∀ j, (s.taskAt j).opens ≠ some id := by
        intro j h_j
        by_cases h_ji : j = i
        · exact h_id (h_old id (h_ji ▸ h_j))
        · exact h_others j h_ji h_j
      exact ((hs.settled id h_idle).keeps (h.frame id h_id)).keeps (h_same id)

/-! ## Turns -/

theorem fits_of_opens {t : Task} (h : t.opens = none) (s : State) : t.Fits s := by
  cases t with
  | loading opener record activation | running opener record activation
  | ran opener record activation failed => exact absurd h (by simp [Task.opens])
  | activated | deactivating | deactivated | building | done => trivial

/-- No task but `i` is in an activation of `k`, so with `i` out of it nothing is. -/
theorem Inv.settled_of_others {i : Nat} {k : ExtId} (hs : Inv s)
    (h_old : (s.taskAt i).opens ≠ some k)
    (h_others : ∀ j, j ≠ i → (s.taskAt j).opens ≠ some k) : Settled s k := by
  refine hs.settled k fun j => ?_
  by_cases h_j : j = i
  · exact h_j ▸ h_old
  · exact h_others j h_j

/-- A turn that writes records at most. -/
theorem turn_quiet {i : Nat} {p : State × Task} (hs : Inv s) (k : ExtId)
    (h_keeps : ∀ id, Keeps s p.1 id) (h_new : p.2.opens = none)
    (h_old : (s.taskAt i).opens ≠ some k) : Turn s i k p where
  frame id _ := h_keeps id
  opens := .inl h_new
  fits := fits_of_opens h_new p.1
  others j _ _ := (hs.fits j).keeps h_keeps
  settled _ h_others := (hs.settled_of_others h_old h_others).keeps (h_keeps k)

/-- A turn from one await of an activation to the next. -/
theorem turn_within {i : Nat} {k : ExtId} {t : Task} (hs : Inv s)
    (h_old : (s.taskAt i).opens = some k) (h_new : t.opens = some k) (h_fits : t.Fits s) :
    Turn s i k (s, t) where
  frame id _ := .refl s id
  opens := .inr ⟨h_new, fun j h_j h_k => h_j (hs.alone j i k h_k h_old)⟩
  fits := h_fits
  others j _ _ := hs.fits j
  settled h_none := absurd (h_none.symm.trans h_new) (by simp)

/-- The end of an activation that succeeds. -/
theorem settled_add {record : ExtensionRecord} {activation : Nat}
    (h : Owned s record.id (some activation) record.manifest.declares) :
    Settled ((s.add ⟨record, activation⟩).setStatus record.id .active) record.id := by
  have h_get : (s.add ⟨record, activation⟩).get record.id = some ⟨record, activation⟩ :=
    get_add s ⟨record, activation⟩
  refine Settled.keeps ⟨fun h_none => ?_, fun loaded h_some => ?_⟩ (keeps_writeRecord _ _ _ _)
  · exact absurd (h_get.symm.trans h_none) (by simp)
  · obtain rfl := Option.some.inj (h_get.symm.trans h_some)
    exact ⟨h.listeners, h.routes, h.commands, h.permissions⟩

theorem keeps_addActive {record : ExtensionRecord} {activation : Nat} (h : id ≠ record.id) :
    Keeps s ((s.add ⟨record, activation⟩).setStatus record.id .active) id := by
  have h_add : Keeps s (s.add ⟨record, activation⟩) id := keeps_add h
  exact h_add.trans (keeps_writeRecord _ _ _ _)

/-- `activate` begins where nothing of the extension is under way. -/
theorem turn_activate {i : Nat} (hs : Inv s) (opener : Opener) (record : ExtensionRecord)
    (h_free : ∀ j, (s.taskAt j).opens ≠ some record.id) :
    Turn s i record.id (s.activate opener record) := by
  have h_settled := hs.settled record.id h_free
  have h_none : Turn s i record.id (s, .activated opener) :=
    turn_quiet hs record.id (Keeps.refl s) rfl (h_free i)
  rw [activate]
  split
  · exact h_none
  · rename_i h_inactive
    have h_get : s.get record.id = none := by simpa [isActive] using h_inactive
    cases h_register : s.registerPermissions record.id record.manifest.declares with
    | none => exact h_none
    | some s₁ =>
      have h_next := keeps_nextActivation s₁
      have h_frame : ∀ id, id ≠ record.id →
          Keeps s { s₁ with nextActivation := s₁.nextActivation + 1 } id := fun id h_ne =>
        (keeps_registerPermissions h_ne h_register).trans (h_next id)
      have h_owned := (owned_registerPermissions (h_settled.inactive h_get) h_register).keeps
        (h_next record.id)
      have h_get₁ : s₁.get record.id = none := by
        rw [registerPermissions_eq_some h_register]
        exact h_get
      show Turn s i record.id (if _ then _ else _)
      split
      · -- the module is loaded first
        exact ⟨h_frame, .inr ⟨rfl, fun j _ => h_free j⟩, ⟨h_get₁, h_owned⟩,
          fun j _ h_k => absurd h_k (h_free j), fun h => absurd h (by simp [Task.opens])⟩
      · -- a frontend alone is active at once
        exact ⟨fun id h_ne => (h_frame id h_ne).trans (keeps_addActive h_ne), .inl rfl, trivial,
          fun j _ h_k => absurd h_k (h_free j),
          fun _ _ => settled_add (h_owned.of_none _)⟩

/-- `activate` goes on after `host.activate`. -/
theorem turn_activateResumes {i : Nat} {opener : Opener} {record : ExtensionRecord}
    {activation : Nat} {failed : Bool} (hs : Inv s)
    (h_at : s.taskAt i = .ran opener record activation failed)
    (h_clean : failed = true → s.disposesAll record.id = true ∧
      (∀ c ∈ s.routes, c.extId ≠ record.id) ∧ ∀ c ∈ s.commands, c.extId ≠ record.id) :
    Turn s i record.id (s.activateResumes opener record activation failed) := by
  have h_opens : (s.taskAt i).opens = some record.id := by rw [h_at]; rfl
  have h_alone : ∀ j, j ≠ i → (s.taskAt j).opens ≠ some record.id := fun j h_j h_k =>
    h_j (hs.alone j i record.id h_k h_opens)
  have h_fits : (Task.ran opener record activation failed).Fits s := h_at ▸ hs.fits i
  obtain ⟨h_get, h_owned⟩ := h_fits
  cases failed with
  | false =>
    exact ⟨fun id h_ne => keeps_addActive h_ne, .inl rfl, trivial,
      fun j h_j h_k => absurd h_k (h_alone j h_j), fun _ _ => settled_add h_owned⟩
  | true =>
    obtain ⟨h_dispose, h_routes, h_commands⟩ := h_clean rfl
    have h_keeps : ∀ id, Keeps s
        (s.activateResumes opener record activation true).1 id := fun id =>
      (((keeps_runDispose s activation id).trans (keeps_unregisterPermissions _ _ id)).trans
        (keeps_writeRecord _ _ id _)).trans (keeps_upsert _ _ id)
    have h_listeners := bus_runDispose h_dispose fun l h_l h_id =>
      Option.some.inj (h_owned.listeners l h_l h_id)
    have h_noReach : NoReach ((s.runDispose activation).unregisterPermissions record.id)
        record.id :=
      ⟨fun l h_l h_id => absurd h_id (h_listeners l h_l),
        fun c h_c h_id => absurd h_id (h_routes c h_c),
        fun c h_c h_id => absurd h_id (h_commands c h_c),
        fun p h_p h_id => absurd h_id (by simpa using (List.mem_filter.mp h_p).2)⟩
    refine ⟨fun id _ => h_keeps id, .inl rfl, trivial, fun j _ _ => (hs.fits j).keeps h_keeps,
      fun _ _ => ⟨fun _ => ?_, fun loaded h_some => ?_⟩⟩
    · exact (h_noReach.keeps (keeps_writeRecord _ _ _ _)).keeps (keeps_upsert _ _ _)
    · exact absurd ((h_keeps record.id).get.symm.trans h_some) (by simp [h_get])

/-- The rest of `deactivate`, once no listener of the extension is on the bus. -/
theorem turn_unwind {i : Nat} {closer : Closer} {s₁ : State} (hs : Inv s)
    (h_keeps : ∀ id, Keeps s s₁ id) (h_old : (s.taskAt i).opens = none)
    (h_listeners : (∀ j, (s.taskAt j).opens ≠ some closer.id) →
      ∀ l ∈ s₁.bus, l.extId ≠ closer.id) :
    Turn s i closer.id (s₁.unwind closer.id, .deactivated closer) where
  frame id h_ne := (h_keeps id).trans (keeps_unwind_of_ne h_ne)
  opens := .inl rfl
  fits := trivial
  others j _ h_k := by
    -- nothing is loaded while the other activation runs, so only contributions go
    have h_fits := (hs.fits j).keeps h_keeps
    refine h_fits.keeps fun id => ?_
    by_cases h_id : id = closer.id
    · have h_none : s₁.get closer.id = none := by
        cases h_task : s.taskAt j with
        | loading _ record _ | running _ record _ | ran _ record _ _ =>
          rw [h_task] at h_fits h_k
          have h_record : record.id = closer.id := Option.some.inj h_k
          exact h_record ▸ h_fits.1
        | activated | deactivating | deactivated | building | done =>
          rw [h_task] at h_k
          exact absurd h_k (by simp [Task.opens])
      rw [h_id]
      exact keeps_unwind ((get_unwind s₁ closer.id).trans h_none.symm)
    · exact keeps_unwind_of_ne h_id
  settled _ h_others := by
    have h_free : ∀ j, (s.taskAt j).opens ≠ some closer.id := by
      intro j
      by_cases h_j : j = i
      · rw [h_j, h_old]
        simp
      · exact h_others j h_j
    refine ⟨fun _ => noReach_unwind (h_listeners h_free), fun loaded h_some => ?_⟩
    exact absurd ((get_unwind s₁ closer.id).symm.trans h_some) (by simp)

/-! ## Steps -/

theorem tasks_upsert (s : State) (record : ExtensionRecord) :
    (s.upsert record).tasks = s.tasks := by
  rw [upsert]
  split <;> rfl

theorem tasks_activate (s : State) (opener : Opener) (record : ExtensionRecord) :
    (s.activate opener record).1.tasks = s.tasks := by
  rw [activate]
  split
  · rfl
  · cases h_register : s.registerPermissions record.id record.manifest.declares with
    | none => rfl
    | some s₁ =>
      have h_tasks : s₁.tasks = s.tasks := by rw [registerPermissions_eq_some h_register]
      show State.tasks (Prod.fst (if _ then _ else _)) = s.tasks
      split <;> exact h_tasks

theorem tasks_activateResumes (s : State) (opener : Opener) (record : ExtensionRecord)
    (activation : Nat) (failed : Bool) :
    (s.activateResumes opener record activation failed).1.tasks = s.tasks := by
  cases failed with
  | false => rfl
  | true => exact tasks_upsert _ _

theorem tasks_copyFiles (s : State) (manifest : Manifest) :
    (s.copyFiles manifest).1.tasks = s.tasks := by
  rw [copyFiles]
  split
  · rfl
  · exact tasks_upsert _ _

theorem tasks_callContext (s : State) (record : ExtensionRecord) (activation : Nat)
    (call : ExtCall) : (s.callContext record activation call).tasks = s.tasks := by
  cases call with
  | off serial => rfl
  | on event | onLog | registerRoutes routes | registerCommand command =>
    show State.tasks (if _ then _ else _) = _
    split <;> rfl

/-- A new task takes its first turn. -/
theorem Inv.push {k : ExtId} {p : State × Task} (hs : Inv s)
    (h : Turn s s.tasks.length k p) (h_tasks : p.1.tasks = s.tasks) : Inv (push p) := by
  have h_at : s.taskAt s.tasks.length = .done := Suspended.get_length _ _
  refine hs.turn h ?_ (fun id => ⟨rfl, fun _ h _ => h, fun _ h _ => h, fun _ h _ => h,
    fun _ h _ => h⟩) fun id h_id => ?_
  · show Suspended.get _ (p.1.tasks ++ [p.2]) = _
    rw [h_tasks]
    exact Suspended.get_push _ _ _
  · rw [h_at] at h_id
    exact absurd h_id (by simp [Task.opens])

/-- A task in flight takes its next turn. -/
theorem Inv.resume {i : Nat} {k : ExtId} {p : State × Task} (hs : Inv s) (h : Turn s i k p)
    (h_tasks : p.1.tasks = s.tasks) (h_at : s.taskAt i ≠ .done)
    (h_old : ∀ id, (s.taskAt i).opens = some id → id = k) : Inv (resume i p) := by
  refine hs.turn h ?_ (fun id => ⟨rfl, fun _ h _ => h, fun _ h _ => h, fun _ h _ => h,
    fun _ h _ => h⟩) h_old
  show Suspended.get _ (p.1.tasks.set i p.2) = _
  rw [h_tasks]
  exact Suspended.get_set _ (Suspended.lt_of_get_ne Task.done h_at) _

/-- A context is called by its extension, active or in its `activate`. -/
theorem Inv.callContext {record : ExtensionRecord} {activation : Nat} (call : ExtCall)
    (hs : Inv s)
    (h_owned : Owned s record.id (some activation) record.manifest.declares)
    (h_fits : ∀ i, (s.taskAt i).opens = some record.id →
      ∃ opener, s.taskAt i = .running opener record activation)
    (h_loaded : ∀ loaded, s.get record.id = some loaded → loaded = ⟨record, activation⟩)
    (h_idle : (∀ i, (s.taskAt i).opens ≠ some record.id) → s.get record.id ≠ none) :
    Inv (s.callContext record activation call) := by
  have h_after := owned_callContext call h_owned
  have h_get := get_callContext (s := s) record activation call
  have h_tasks : (s.callContext record activation call).taskAt = s.taskAt := by
    show Suspended.get _ (State.tasks _) = _
    rw [tasks_callContext]
    rfl
  refine ⟨fun i j id => ?_, fun i => ?_, fun id h_free => ?_⟩
  · rw [h_tasks]
    exact hs.alone i j id
  · rw [h_tasks]
    by_cases h_k : (s.taskAt i).opens = some record.id
    · obtain ⟨opener, h_at⟩ := h_fits i h_k
      have h_before := hs.fits i
      rw [h_at] at h_before ⊢
      exact ⟨(congrFun h_get _).trans h_before.1, h_after⟩
    · exact (hs.fits i).keeps_of_opens (fun id h_ne => keeps_callContext activation call h_ne) h_k
  · rw [h_tasks] at h_free
    by_cases h_id : id = record.id
    · subst h_id
      refine ⟨fun h_none => ?_, fun loaded h_some => ?_⟩
      · exact absurd ((congrFun h_get _).symm.trans h_none) (h_idle h_free)
      · obtain rfl := h_loaded loaded ((congrFun h_get _).symm.trans h_some)
        exact h_after
    · exact (hs.settled id h_free).keeps (keeps_callContext activation call h_id)

theorem inv_deactivate {closer : Closer} (hs : Inv s) : Inv (push (s.deactivate closer)) := by
  have h_at : s.taskAt s.tasks.length = .done := Suspended.get_length _ _
  have h_old : (s.taskAt s.tasks.length).opens = none := by rw [h_at]; rfl
  rw [deactivate]
  cases h_get : s.get closer.id with
  | some loaded =>
    have h_turn := turn_quiet (p := (s, .deactivating closer loaded)) hs closer.id (Keeps.refl s)
      rfl (by rw [h_old]; simp)
    exact hs.push h_turn rfl
  | none =>
    refine hs.push (turn_unwind hs (Keeps.refl s) h_old fun h_free l h_l h_id => ?_) rfl
    have h_reach := (hs.settled closer.id h_free).inactive h_get
    exact absurd (h_reach.listeners l h_l h_id) (by simp)

theorem turn_copyFiles {manifest : Manifest} (hs : Inv s) {i : Nat}
    (h_old : (s.taskAt i).opens = none) : Turn s i manifest.id (s.copyFiles manifest) := by
  have h_not : (s.taskAt i).opens ≠ some manifest.id := by rw [h_old]; simp
  rw [copyFiles]
  split
  · exact turn_quiet hs _ (Keeps.refl s) rfl h_not
  · exact turn_quiet hs _ (fun id => keeps_upsert s _ id) rfl h_not

theorem turn_bootNext {rest : List ExtensionRecord} (hs : Inv s) {i : Nat}
    (h_old : (s.taskAt i).opens = none)
    (h_free : ∀ record ∈ rest.head?, ∀ j, (s.taskAt j).opens ≠ some record.id) :
    ∃ k, Turn s i k (s.bootNext rest) := by
  cases rest with
  | nil => exact ⟨"", turn_quiet hs "" (Keeps.refl s) rfl (by rw [h_old]; simp)⟩
  | cons record rest => exact ⟨record.id, turn_activate hs _ record (h_free record rfl)⟩

theorem tasks_bootNext (s : State) (rest : List ExtensionRecord) :
    (s.bootNext rest).1.tasks = s.tasks := by
  cases rest with
  | nil => rfl
  | cons record rest => exact tasks_activate s _ record

/-- The caller of `deactivate`, and an install, write records only. -/
theorem turn_closerResumes {closer : Closer} (hs : Inv s) {i : Nat}
    (h_old : (s.taskAt i).opens = none) : Turn s i closer.id (s.closerResumes closer) := by
  have h_not : (s.taskAt i).opens ≠ some closer.id := by rw [h_old]; simp
  cases closer with
  | install manifest => exact turn_copyFiles hs h_old
  | disable id =>
    exact turn_quiet hs _
      (fun k => (keeps_writeRecord s id k _).trans (keeps_writeRecord _ id k _)) rfl h_not
  | remove id =>
    exact turn_quiet hs _
      (fun _ => ⟨rfl, fun _ h _ => h, fun _ h _ => h, fun _ h _ => h, fun _ h _ => h⟩) rfl h_not

theorem tasks_closerResumes (s : State) (closer : Closer) :
    (s.closerResumes closer).1.tasks = s.tasks := by
  cases closer with
  | install manifest => exact tasks_copyFiles s manifest
  | disable id => rfl
  | remove id => rfl

/-- Records are not what the invariant is about. -/
theorem Inv.writeRecord (hs : Inv s) (k : ExtId) (f : ExtensionRecord → ExtensionRecord) :
    Inv (s.writeRecord k f) where
  alone := hs.alone
  fits i := (hs.fits i).keeps fun id => keeps_writeRecord s k id f
  settled id h_free := (hs.settled id h_free).keeps (keeps_writeRecord s k id f)

/-- A task goes on from one await of an activation to the next. -/
theorem Inv.resume_within {i : Nat} {k : ExtId} {t : Task} (hs : Inv s)
    (h_old : (s.taskAt i).opens = some k) (h_new : t.opens = some k) (h_fits : t.Fits s) :
    Inv (State.resume i (s, t)) := by
  refine hs.resume (turn_within hs h_old h_new h_fits) rfl (fun h_at => ?_) fun id h_id => ?_
  · rw [h_at] at h_old
    exact absurd h_old (by simp [Task.opens])
  · exact Option.some.inj (h_id.symm.trans h_old)

/-- A task outside `activate` goes on and writes records at most. -/
theorem Inv.resume_quiet {i : Nat} {p : State × Task} (hs : Inv s)
    (h_keeps : ∀ id, Keeps s p.1 id) (h_tasks : p.1.tasks = s.tasks) (h_new : p.2.opens = none)
    (h_at : s.taskAt i ≠ .done) (h_old : (s.taskAt i).opens = none) :
    Inv (State.resume i p) := by
  have h_turn := turn_quiet (p := p) (i := i) hs "" h_keeps h_new (by rw [h_old]; simp)
  exact hs.resume h_turn h_tasks h_at (by simp [h_old])

theorem Inv.enable {record : ExtensionRecord} (hs : Inv s) (h_id : record.id = id)
    (h_closed : s.opening id = false) :
    Inv (State.push ((s.setEnabled id true).activate .enable { record with enabled := true })) := by
  have h_enabled : Inv (s.setEnabled id true) := hs.writeRecord id _
  have h_same : (s.setEnabled id true).opening id = false := h_closed
  have h_free : ∀ j, ((s.setEnabled id true).taskAt j).opens ≠ some record.id := by
    rw [h_id]
    exact opens_of_opening h_same
  exact h_enabled.push (turn_activate h_enabled .enable { record with enabled := true } h_free)
    (tasks_activate _ _ _)

/-- The module of an extension with no permission in the registry does not load. -/
theorem Inv.moduleThrows {i : Nat} {opener : Opener} {record : ExtensionRecord}
    {activation : Nat} (hs : Inv s) (h_at : s.taskAt i = .loading opener record activation)
    (h_none : ∀ p ∈ s.permissions, p.source ≠ record.id) :
    Inv (State.resume i (s, .activated opener)) := by
  have h_opens : (s.taskAt i).opens = some record.id := by rw [h_at]; rfl
  have h_fits : (Task.loading opener record activation).Fits s := h_at ▸ hs.fits i
  obtain ⟨h_get, h_owned⟩ := h_fits
  have h_reach : NoReach s record.id :=
    ⟨h_owned.listeners, h_owned.routes, h_owned.commands,
      fun p h_p h_id => absurd h_id (h_none p h_p)⟩
  have h_settled : Settled s record.id :=
    ⟨fun _ => h_reach, fun loaded h_some => absurd (h_get.symm.trans h_some) (by simp)⟩
  have h_turn : Turn s i record.id (s, .activated opener) :=
    ⟨fun id _ => .refl s id, .inl rfl, trivial, fun j _ _ => hs.fits j, fun _ _ => h_settled⟩
  exact hs.resume h_turn rfl (by simp [h_at]) (by simp [h_opens, eq_comm])

/-- While an extension is active no activation of it is under way. -/
theorem Inv.opens_of_get {loaded : LoadedExtension} (hs : Inv s) (h_get : s.get id = some loaded)
    (j : Nat) : (s.taskAt j).opens ≠ some id := by
  intro h_j
  have h_fits := hs.fits j
  cases h_task : s.taskAt j with
  | loading _ record _ | running _ record _ | ran _ record _ _ =>
    rw [h_task] at h_fits h_j
    have h_record : record.id = id := Option.some.inj h_j
    exact absurd ((h_record ▸ h_fits.1).symm.trans h_get) (by simp)
  | activated | deactivating | deactivated | building | done =>
    rw [h_task] at h_j
    exact absurd h_j (by simp [Task.opens])

theorem Inv.callsActive {loaded : LoadedExtension} (hs : Inv s) (h_get : s.get id = some loaded)
    (call : ExtCall) : Inv (s.callContext loaded.record loaded.activation call) := by
  have h_id : loaded.record.id = id := by simpa using List.find?_some h_get
  subst h_id
  have h_free := hs.opens_of_get h_get
  refine hs.callContext call ((hs.settled _ h_free).active loaded h_get)
    (fun j h_j => absurd h_j (h_free j)) (fun other h_some => ?_) fun _ => ?_
  · exact Option.some.inj (h_some.symm.trans h_get)
  · rw [h_get]
    simp

theorem Inv.deactivateResumes {i : Nat} {closer : Closer} {loaded : LoadedExtension}
    (hs : Inv s) (h_at : s.taskAt i = .deactivating closer loaded)
    (h_dispose : s.disposesAll closer.id = true)
    (h_same : ∀ l, s.get closer.id = some l → l = loaded) :
    Inv (State.resume i ((s.runDispose loaded.activation).unwind closer.id,
      .deactivated closer)) := by
  have h_old : (s.taskAt i).opens = none := by rw [h_at]; rfl
  refine hs.resume (turn_unwind hs (fun id => keeps_runDispose s _ id) h_old fun h_free => ?_)
    rfl (by simp [h_at]) (by simp [h_old])
  have h_settled := hs.settled closer.id h_free
  cases h_get : s.get closer.id with
  | none =>
    intro l h_l h_id
    have h_reach := (h_settled.inactive h_get).keeps
      (keeps_runDispose s loaded.activation closer.id)
    exact absurd (h_reach.listeners l h_l h_id) (by simp)
  | some l' =>
    have h_owned := h_settled.active l' h_get
    rw [h_same l' h_get] at h_owned
    exact bus_runDispose h_dispose fun l h_l h_id =>
      Option.some.inj (h_owned.listeners l h_l h_id)

/-- One step inside the condition keeps the invariant. -/
theorem Inv.step {e : Event} (hs : Inv s) (h_cleans : cleans s e = true)
    (h : step s e = some s') : Inv s' := by
  have h_last : (s.taskAt s.tasks.length).opens = none := by
    have h_at : s.taskAt s.tasks.length = .done := Suspended.get_length _ _
    rw [h_at]
    rfl
  cases e with
  | boot =>
    obtain rfl := Option.some.inj h
    have h_free : ∀ record ∈ (s.records.filter fun r => r.enabled && r.status ≠ .error).head?,
        ∀ j, (s.taskAt j).opens ≠ some record.id := by
      intro record h_head
      have h_closed := (Option.all_eq_true _ _).mp h_cleans record h_head
      exact opens_of_opening (by simpa using h_closed)
    obtain ⟨k, h_turn⟩ := turn_bootNext hs h_last h_free
    exact hs.push h_turn (tasks_bootNext s _)
  | install manifest =>
    simp only [Extensions.step] at h
    split at h
    · obtain rfl := Option.some.inj h
      exact inv_deactivate hs
    · obtain rfl := Option.some.inj h
      exact hs.push (turn_copyFiles hs h_last) (tasks_copyFiles s manifest)
  | consent id capabilities =>
    obtain ⟨record, -, rfl⟩ := Option.map_eq_some_iff.mp h
    exact hs.writeRecord id _
  | enable id =>
    simp only [Extensions.step] at h
    cases h_find : s.findRecord id with
    | none => simp [h_find] at h
    | some record =>
      have h_id : record.id = id := by simpa using List.find?_some h_find
      simp only [h_find] at h
      split at h
      · exact absurd h (by simp)
      · obtain rfl := Option.some.inj h
        exact hs.enable h_id (by simpa [cleans] using h_cleans)
  | disable id =>
    obtain ⟨record, -, rfl⟩ := Option.map_eq_some_iff.mp h
    exact inv_deactivate hs
  | remove id =>
    obtain ⟨record, -, rfl⟩ := Option.map_eq_some_iff.mp h
    exact inv_deactivate hs
  | moduleLoads i =>
    cases h_at : s.taskAt i with
    | loading opener record activation =>
      simp only [Extensions.step, h_at] at h
      obtain rfl := Option.some.inj h
      have h_fits : (Task.loading opener record activation).Fits s := h_at ▸ hs.fits i
      exact hs.resume_within (by rw [h_at]; rfl) rfl ⟨h_fits.1, h_fits.2.of_none _⟩
    | _ => simp [Extensions.step, h_at] at h
  | moduleThrows i =>
    cases h_at : s.taskAt i with
    | loading opener record activation =>
      simp only [Extensions.step, h_at] at h
      obtain rfl := Option.some.inj h
      exact hs.moduleThrows h_at (by simpa [cleans, h_at] using h_cleans)
    | _ => simp [Extensions.step, h_at] at h
  | calls i call =>
    cases h_at : s.taskAt i with
    | running opener record activation =>
      simp only [Extensions.step, h_at] at h
      obtain rfl := Option.some.inj h
      have h_opens : (s.taskAt i).opens = some record.id := by rw [h_at]; rfl
      have h_fits : (Task.running opener record activation).Fits s := h_at ▸ hs.fits i
      refine hs.callContext call h_fits.2 (fun j h_j => ?_) (fun loaded h_some => ?_)
        fun h_free => ?_
      · rw [hs.alone j i record.id h_j h_opens]
        exact ⟨opener, h_at⟩
      · exact absurd (h_fits.1.symm.trans h_some) (by simp)
      · exact absurd h_opens (h_free i)
    | _ => simp [Extensions.step, h_at] at h
  | callsActive id call =>
    obtain ⟨loaded, h_get, rfl⟩ := Option.map_eq_some_iff.mp h
    exact hs.callsActive h_get call
  | extensionReturns i | extensionThrows i =>
    cases h_at : s.taskAt i with
    | running opener record activation =>
      simp only [Extensions.step, h_at] at h
      obtain rfl := Option.some.inj h
      have h_fits : (Task.running opener record activation).Fits s := h_at ▸ hs.fits i
      exact hs.resume_within (by rw [h_at]; rfl) rfl h_fits
    | _ => simp [Extensions.step, h_at] at h
  | activateResumes i =>
    cases h_at : s.taskAt i with
    | ran opener record activation failed =>
      simp only [Extensions.step, h_at] at h
      obtain rfl := Option.some.inj h
      have h_clean : failed = true → s.disposesAll record.id = true ∧
          (∀ c ∈ s.routes, c.extId ≠ record.id) ∧ ∀ c ∈ s.commands, c.extId ≠ record.id := by
        rintro rfl
        simpa [cleans, h_at, and_assoc] using h_cleans
      exact hs.resume (turn_activateResumes hs h_at h_clean) (tasks_activateResumes _ _ _ _ _)
        (by simp [h_at]) (by simp [h_at, Task.opens, eq_comm])
    | _ => simp [Extensions.step, h_at] at h
  | openerResumes i =>
    cases h_at : s.taskAt i with
    | activated opener =>
      have h_old : (s.taskAt i).opens = none := by rw [h_at]; rfl
      cases opener with
      | enable =>
        simp only [Extensions.step, h_at] at h
        obtain rfl := Option.some.inj h
        exact hs.resume_quiet (Keeps.refl s) rfl rfl (by simp [h_at]) h_old
      | boot rest =>
        simp only [Extensions.step, h_at] at h
        obtain rfl := Option.some.inj h
        have h_free : ∀ record ∈ rest.head?, ∀ j, (s.taskAt j).opens ≠ some record.id := by
          intro record h_head
          cases rest with
          | nil => exact absurd h_head (by simp)
          | cons first rest =>
            obtain rfl : first = record := by simpa using h_head
            exact opens_of_opening (by simpa [cleans, h_at] using h_cleans)
        obtain ⟨k, h_turn⟩ := turn_bootNext hs h_old h_free
        exact hs.resume h_turn (tasks_bootNext s rest) (by simp [h_at]) (by simp [h_old])
    | _ => simp [Extensions.step, h_at] at h
  | deactivateResumes i =>
    cases h_at : s.taskAt i with
    | deactivating closer loaded =>
      simp only [Extensions.step, h_at] at h
      obtain rfl := Option.some.inj h
      obtain ⟨h_dispose, h_same⟩ : s.disposesAll closer.id = true ∧
          ∀ l, s.get closer.id = some l → l = loaded := by
        simpa [cleans, h_at, Option.all_eq_true] using h_cleans
      exact hs.deactivateResumes h_at h_dispose h_same
    | _ => simp [Extensions.step, h_at] at h
  | closerResumes i =>
    cases h_at : s.taskAt i with
    | deactivated closer =>
      simp only [Extensions.step, h_at] at h
      obtain rfl := Option.some.inj h
      have h_old : (s.taskAt i).opens = none := by rw [h_at]; rfl
      exact hs.resume (turn_closerResumes hs h_old) (tasks_closerResumes s closer)
        (by simp [h_at]) (by simp [h_old])
    | _ => simp [Extensions.step, h_at] at h
  | builds i =>
    cases h_at : s.taskAt i with
    | building manifest =>
      simp only [Extensions.step, h_at] at h
      obtain rfl := Option.some.inj h
      exact hs.resume_quiet (fun id => keeps_upsert s _ id) (tasks_upsert _ _) rfl
        (by simp [h_at]) (by rw [h_at]; rfl)
    | _ => simp [Extensions.step, h_at] at h
  | installFails i =>
    have h_ends := hs.resume_quiet (i := i) (p := (s, .done)) (Keeps.refl s) rfl rfl
    cases h_at : s.taskAt i with
    | building manifest =>
      simp only [Extensions.step, h_at] at h
      obtain rfl := Option.some.inj h
      exact h_ends (by simp [h_at]) (by rw [h_at]; rfl)
    | deactivated closer =>
      cases closer with
      | install manifest =>
        simp only [Extensions.step, h_at] at h
        obtain rfl := Option.some.inj h
        exact h_ends (by simp [h_at]) (by rw [h_at]; rfl)
      | disable id => simp [Extensions.step, h_at] at h
      | remove id => simp [Extensions.step, h_at] at h
    | _ => simp [Extensions.step, h_at] at h

end

theorem inv_of_init {s : State} (h : manager.init s) : Inv s := by
  obtain ⟨h_loaded, h_routes, h_commands, h_permissions, h_bus, h_tasks⟩ := h
  have h_done : ∀ i, s.taskAt i = .done := fun i => by
    rw [taskAt, h_tasks]
    exact Suspended.get_nil _ i
  refine ⟨fun i j id h_i => ?_, fun i => h_done i ▸ trivial, fun id _ => ⟨fun _ => ?_, ?_⟩⟩
  · rw [h_done i] at h_i
    exact absurd h_i (by simp [Task.opens])
  · exact ⟨by simp [h_bus], by simp [h_routes], by simp [h_commands], by simp [h_permissions]⟩
  · intro loaded h_some
    simp [State.get, h_loaded] at h_some

/-! ## Runs -/

/-- In every run inside the condition an extension that no activation is bringing up, and so
    one that no operation is in flight on, is settled. -/
theorem settled_of_reachableUnder {s : State} {id : ExtId}
    (h : manager.ReachableUnder (fun s e => cleans s e = true) s)
    (h_closed : s.opening id = false) : Settled s id := by
  have h_inv : Inv s :=
    h.invariant (fun _ h_init => inv_of_init h_init) fun _ _ _ h_s h_cleans h_step =>
      h_s.step h_cleans h_step
  exact h_inv.settled id (opens_of_opening h_closed)

/-- A record for runs. -/
def stored (declares : List String) : ExtensionRecord where
  id := "ext"
  enabled := false
  manifest := ⟨"ext", [.eventsServer, .serversRead, .httpRoutes], declares, true, false⟩
  grantedCapabilities := [.eventsServer, .serversRead, .httpRoutes]
  status := .installed

def startOf (declares : List String) : State := { records := [stored declares] }

theorem init_startOf (declares : List String) : manager.init (startOf declares) :=
  ⟨rfl, rfl, rfl, rfl, rfl, rfl⟩

/-- Enabled with a listener and a route, called while active, and disabled. -/
def upAndDown : List Event :=
  [.enable "ext", .moduleLoads 0, .calls 0 (.on .serverStarted),
   .calls 0 (.registerRoutes ["status"]), .extensionReturns 0, .activateResumes 0,
   .openerResumes 0, .callsActive "ext" (.on .serverStopped), .disable "ext",
   .deactivateResumes 1, .closerResumes 1]

theorem settled_upAndDown :
    ∃ s, manager.runUnder cleans (startOf ["ext.view"]) upAndDown = some s ∧
      s.opening "ext" = false ∧ Settled s "ext" :=
  ⟨(manager.runUnder cleans (startOf ["ext.view"]) upAndDown).get (by decide +kernel),
    (Option.some_get _).symm, by decide +kernel,
    settled_of_reachableUnder
      (manager.reachableUnder_of_runUnder upAndDown (.init (init_startOf _))
        (Option.some_get _).symm)
      (by decide +kernel)⟩

/-- The extension listens to a log while it is active. -/
def listensAndGoes : List Event :=
  [.enable "ext", .moduleLoads 0, .calls 0 .onLog, .extensionReturns 0, .activateResumes 0,
   .openerResumes 0, .disable "ext", .deactivateResumes 1, .closerResumes 1]

/-- After `disable` the listener is still on the bus. -/
theorem onLog_outlives_disable :
    ¬ ∀ s, manager.Reachable s → (∀ t ∈ s.tasks, t = .done) →
      ∀ id, s.get id = none → NoReach s id := by
  intro h_claim
  have h_run : manager.run (startOf []) listensAndGoes =
      some ((manager.run (startOf []) listensAndGoes).get (by decide +kernel)) :=
    (Option.some_get _).symm
  have h_reach := manager.reachable_of_run listensAndGoes (.init (init_startOf [])) h_run
  have h_none := h_claim _ h_reach (by decide +kernel) "ext" (by decide +kernel)
  have h_listener : (⟨0, "ext", 0, .serverLog, false⟩ : Listener) ∈
      ((manager.run (startOf []) listensAndGoes).get (by decide +kernel)).bus := by
    decide +kernel
  exact absurd (h_none.listeners _ h_listener rfl) (by simp)

/-- An `activate` that throws leaves its routes. -/
example : ((manager.run (startOf []) [.enable "ext", .moduleLoads 0,
    .calls 0 (.registerRoutes ["status"]), .extensionThrows 0, .activateResumes 0,
    .openerResumes 0]).map fun s => (s.get "ext", s.routes)) =
    some (none, [⟨"ext", 0, "status"⟩]) := by
  decide +kernel

/-- A module that does not load leaves its permissions. -/
example : ((manager.run (startOf ["ext.view"]) [.enable "ext", .moduleThrows 0,
    .openerResumes 0]).map fun s => (s.get "ext", s.permissions)) =
    some (none, [⟨"ext.view", "ext"⟩]) := by
  decide +kernel

/-- Of two enables at once the second stays loaded, with the listener of the first. -/
example : ((manager.run (startOf []) [.enable "ext", .enable "ext", .moduleLoads 0,
    .moduleLoads 1, .calls 0 (.on .serverStarted), .extensionReturns 0, .extensionReturns 1,
    .activateResumes 0, .activateResumes 1]).map fun s =>
      ((s.get "ext").map (·.activation), s.bus.map (·.activation))) = some (some 1, [0]) := by
  decide +kernel

end Kubek.Extensions
