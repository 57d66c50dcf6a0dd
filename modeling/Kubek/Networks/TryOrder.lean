/-
  Kubek.Networks.TryOrder

  The try order of a network over its life: its creation by the wizard, the changes of
  `network-members.service.ts`, and what happens to its servers meanwhile, which are deleted
  (the member row goes with the server) or change to a core that Velocity cannot serve.

  Every change repairs the order of the draft it makes (`tried_of_drafted`) but the rotation of
  the secret, which commits the members as it finds them: without the default server none may
  be in the try order.
-/

import Kubek.Networks.Members

namespace Kubek.Networks.TryOrder

open Properties (Text)
open Transition

/-! ## The system -/

/-- `tryOrder` of the wizard: a missing order puts the first backend first. -/
def wizardOrder (order refs : List Text) : Option (List Text) :=
  let chosen := if order.isEmpty then refs.take 1 else order
  if decide chosen.Nodup && chosen.all refs.contains then some chosen else none

/-- The backends of the wizard with their names, in the order of the request. -/
def named (p : Panel) (chosen : List Text) (taken : List Text) : List (Text × Text) → List Member
  | [] => []
  | (ref, serverId) :: servers =>
      let aliasName := aliasFor p.fold (p.name serverId) taken
      ⟨serverId, aliasName, chosen.idxOf? ref⟩ ::
        named p chosen (taken ++ [aliasName]) servers

/-- The backends that the wizard stores, from their references and servers; none where it
    refuses. -/
def wizardBackends (p : Panel) (order : List Text) (servers : List (Text × Text)) :
    Option (List Member) :=
  if servers.isEmpty then none
  else (wizardOrder order (servers.map Prod.fst)).map fun chosen => named p chosen [] servers

/-- A network and the servers of the panel. -/
structure State where
  network : Network
  created : Bool
  /-- The server is in the panel. -/
  present : Text → Bool
  /-- Its blueprint can run behind Velocity. -/
  supported : Text → Bool
  /-- What each successful commit left: the member rows and `velocity.toml`. -/
  commits : List (List Member × Option VelocityFile)

inductive TryEvent
  /-- The wizard configures the servers and stores the network. -/
  | create (order : List Text) (servers : List (Text × Text))
  | change (e : Event)
  | serverAdded (serverId : Text) (supported : Bool)
  | serverDeleted (serverId : Text)
  | coreChanged (serverId : Text) (supported : Bool)

namespace State

/-- What the drafts take from the servers now. -/
def panel (p : Panel) (st : State) : Panel :=
  { p with serves := fun s => st.present s && st.supported s }

/-- The keys of the table hold, and each row has its server. -/
def storable (st : State) (backends : List Member) : Bool :=
  insertable backends && backends.all fun m => st.present m.serverId

/-- A commit whose rows name a server that is gone. -/
def dangling (st : State) : Event → Bool
  | .commit i =>
      match st.network.callAt i with
      | .written _ backends => !backends.all fun m => st.present m.serverId
      | _ => false
  | _ => false

/-- The network after an event of a change; a commit is remembered. -/
def advance (st : State) (n : Network) : State :=
  { st with
    network := n
    commits := if n.log.length = st.network.log.length then st.commits
      else st.commits ++ [(n.rows, n.velocity)] }

end State

/-- The call that an event moves. -/
def callOf : Event → Nat
  | .accept _ => 0
  | .read i => i
  | .edit i => i
  | .write i => i
  | .commit i => i
  | .throws i => i

def step (p : Panel) (st : State) : TryEvent → Option State
  | .create order servers =>
      if st.created then none
      else
        (wizardBackends (st.panel p) order servers).map fun backends =>
          let velocity := some (velocityFile p backends)
          if st.storable backends then
            { st with
              network := { st.network with rows := backends, velocity }
              created := true
              commits := st.commits ++ [(backends, velocity)] }
          else { st with network := { st.network with velocity } }
  | .change e =>
      if !st.created then none
      else if st.dangling e then
        some { st with network := st.network.moveTo (callOf e) .failed }
      else (st.network.step (st.panel p) e).map st.advance
  | .serverAdded s supported =>
      some { st with
        present := Function.update st.present s true
        supported := Function.update st.supported s supported }
  | .serverDeleted s =>
      some { st with
        network := { st.network with rows := st.network.rows.filter fun m => m.serverId ≠ s }
        present := Function.update st.present s false }
  | .coreChanged s supported =>
      some { st with supported := Function.update st.supported s supported }

/-- A panel without the network, with any servers and any `velocity.toml` of the proxy. -/
def machine (p : Panel) : Machine State TryEvent where
  init st := st.created = false ∧ st.commits = [] ∧ st.network.calls = [] ∧ st.network.log = []
  step := TryOrder.step p

/-- The orders are distinct, and a network with backends has one to try. -/
def ValidCommit (commit : List Member × Option VelocityFile) : Prop :=
  (commit.1.filterMap Member.tryOrder).Nodup ∧
    (commit.1 ≠ [] → ∃ file, commit.2 = some file ∧ file.tryList ≠ [])

/-- A change with backends that has dealt with `velocity.toml` and not yet committed. -/
def expectsDefault : Call → Bool
  | .written _ backends => !backends.isEmpty
  | _ => false

/-- The secret is not rotated while there are backends and none is in the try order, and no
    empty server list is written while a change with backends has dealt with `velocity.toml`
    and not yet committed. -/
def keepsDefault (p : Panel) (st : State) : TryEvent → Bool
  | .change (.read i) =>
      match st.network.callAt i with
      | .accepted .rotateSecret =>
          let backends := draftOf (st.panel p) st.network.rows
          backends.isEmpty || backends.any fun b => b.tryOrder.isSome
      | _ => true
  | .change (.write i) =>
      match st.network.callAt i with
      | .edited _ backends => !backends.isEmpty || st.network.noOther i expectsDefault
      | _ => true
  | _ => true

/-! ## Drafts -/

theorem tried_ne_nil {backends : List Member} :
    tried backends ≠ [] ↔ ∃ b ∈ backends, b.tryOrder.isSome = true := by
  rw [tried, ne_eq, ← List.length_eq_zero_iff, List.length_insertionSort, List.length_eq_zero_iff,
    List.filter_eq_nil_iff]
  push Not
  exact Iff.rfl

theorem tried_of_map_idxOf {order : List Text} {rows : List Member} {s : Text} (h : s ∈ order)
    (h_any : ∃ b ∈ rows, b.serverId = s) :
    tried (rows.map fun b => { b with tryOrder := order.idxOf? b.serverId }) ≠ [] := by
  obtain ⟨b, h_b, rfl⟩ := h_any
  refine tried_ne_nil.mpr ⟨_, List.mem_map_of_mem h_b, ?_⟩
  rw [List.isSome_idxOf?]
  simpa using h

theorem tried_compactOrder {backends : List Member} (h : backends ≠ []) :
    tried (compactOrder backends) ≠ [] := by
  rw [tried_ne_nil, compactOrder]
  split
  · rename_i h_nil
    exact absurd (List.map_eq_nil_iff.mp h_nil) h
  · rename_i b rest h_cons
    split
    · exact ⟨_, List.mem_cons_self, rfl⟩
    · rename_i h_all
      rw [Bool.not_eq_true, List.all_eq_false] at h_all
      obtain ⟨x, h_x, h_some⟩ := h_all
      exact ⟨x, h_x, by simpa [Option.isSome_iff_ne_none] using h_some⟩

section Drafts

variable {p : Panel} {rows backends : List Member} {change : Change}

/-- A draft with backends has a default one, if the rotation of the secret found one. -/
theorem tried_of_drafted (h : drafted p rows change = some backends) (h_ne : backends ≠ [])
    (h_rotate : change = .rotateSecret → tried (draftOf p rows) ≠ []) : tried backends ≠ [] := by
  cases change with
  | addMember s =>
    cases h
    by_cases h_all : (draftOf p rows).all fun b => b.tryOrder.isNone
    · refine tried_ne_nil.mpr ⟨_, List.mem_append_right _ (List.mem_singleton_self _), ?_⟩
      rw [added, if_pos h_all]
      rfl
    · rw [Bool.not_eq_true, List.all_eq_false] at h_all
      obtain ⟨b, h_b, h_some⟩ := h_all
      exact tried_ne_nil.mpr ⟨b, List.mem_append_left _ h_b,
        by simpa [Option.isSome_iff_ne_none] using h_some⟩
  | removeMember s =>
    cases h
    refine tried_compactOrder fun h_nil => h_ne ?_
    rw [h_nil]
    rfl
  | setOrder order =>
    simp only [drafted] at h
    split at h
    · cases h
    · rename_i h_order
      cases h
      simp only [not_or, Decidable.not_not] at h_order
      obtain ⟨h_nil, -, h_known⟩ := h_order
      obtain ⟨s, rest, rfl⟩ := List.exists_cons_of_ne_nil h_nil
      have h_first := List.all_eq_true.mp h_known s List.mem_cons_self
      obtain ⟨b, h_b, h_eq⟩ := List.any_eq_true.mp h_first
      exact tried_of_map_idxOf List.mem_cons_self ⟨b, h_b, beq_iff_eq.mp h_eq⟩
  | rotateSecret =>
    cases h
    exact h_rotate rfl

theorem mem_named (p : Panel) (chosen taken : List Text) {servers : List (Text × Text)}
    {x : Text × Text} (h : x ∈ servers) :
    ∃ m ∈ named p chosen taken servers, m.tryOrder = chosen.idxOf? x.1 := by
  induction servers generalizing taken with
  | nil => cases h
  | cons y servers ih =>
    obtain rfl | h := List.mem_cons.mp h
    · exact ⟨_, List.mem_cons_self, rfl⟩
    · obtain ⟨m, h_m, h_order⟩ := ih _ h
      exact ⟨m, List.mem_cons_of_mem _ h_m, h_order⟩

/-- The wizard has a default server. -/
theorem tried_of_wizardBackends {order : List Text} {servers : List (Text × Text)}
    (h : wizardBackends p order servers = some backends) : tried backends ≠ [] := by
  rw [wizardBackends] at h
  split at h
  · cases h
  · rename_i h_servers
    obtain ⟨chosen, h_order, rfl⟩ := Option.map_eq_some_iff.mp h
    rw [wizardOrder] at h_order
    generalize h_refs :
      (if order.isEmpty = true then (servers.map Prod.fst).take 1 else order) = refs at h_order
    split at h_order
    · rename_i h_checked
      rw [Bool.and_eq_true, List.all_eq_true] at h_checked
      have h_chosen : chosen ≠ [] := by
        rw [← Option.some.inj h_order, ← h_refs]
        split
        · intro h_nil
          cases servers with
          | nil => exact h_servers rfl
          | cons y servers => cases h_nil
        · rename_i h_given
          exact fun h_nil => h_given (List.isEmpty_iff.mpr h_nil)
      obtain ⟨ref, rest, h_cons⟩ := List.exists_cons_of_ne_nil h_chosen
      have h_ref : ref ∈ servers.map Prod.fst := by
        have h_known := h_checked.2 ref (by
          rw [Option.some.inj h_order, h_cons]
          exact List.mem_cons_self)
        simpa using h_known
      obtain ⟨x, h_x, rfl⟩ := List.mem_map.mp h_ref
      obtain ⟨m, h_m, h_m_order⟩ := mem_named p chosen [] h_x
      refine tried_ne_nil.mpr ⟨m, h_m, ?_⟩
      rw [h_m_order, List.isSome_idxOf?, h_cons]
      exact List.mem_cons_self
    · cases h_order

end Drafts

/-! ## Runs -/

/-- `velocity.toml` tries a server. -/
def HasDefault (velocity : Option VelocityFile) : Prop :=
  ∃ file, velocity = some file ∧ file.tryList ≠ []

structure Inv (st : State) : Prop where
  quiet : st.created = false → st.network.calls = []
  /-- A draft with backends has a default one. -/
  drafts : ∀ i change backends, (st.network.callAt i).draft = some (change, backends) →
    backends ≠ [] → tried backends ≠ []
  expected : ∀ i, expectsDefault (st.network.callAt i) = true →
    HasDefault st.network.velocity
  valid : ∀ commit ∈ st.commits, ValidCommit commit

section Steps

variable {p : Panel} {st st' : State} {i : Nat} {c : Call} {change : Change}
  {backends : List Member}

/-- Before the first change only the commits matter. -/
theorem Inv.ofNoCalls (h_calls : st.network.calls = [])
    (h_valid : ∀ commit ∈ st.commits, ValidCommit commit) : Inv st := by
  have h_at : ∀ i, st.network.callAt i = .done := fun i => by
    rw [Network.callAt, h_calls]
    rfl
  refine ⟨fun _ => h_calls, fun i change b h_i => ?_, fun i h_i => ?_, h_valid⟩
  · rw [h_at] at h_i
    cases h_i
  · rw [h_at] at h_i
    cases h_i

theorem hasDefault_velocityFile (p : Panel) (h_tried : tried backends ≠ []) :
    HasDefault (some (velocityFile p backends)) :=
  ⟨_, rfl, fun h_nil => h_tried (List.map_eq_nil_iff.mp h_nil)⟩

theorem expectsDefault_iff :
    expectsDefault c = true ↔ ∃ change backends, c = .written change backends ∧ backends ≠ [] := by
  cases c with
  | written change backends => simp [expectsDefault]
  | _ => simp [expectsDefault]

/-- A call goes on; what its draft and `velocity.toml` have to be is asked of the caller. -/
theorem Inv.moves (h : Inv st) (h_created : st.created = true) {n : Network}
    (calls : n.callAt = Function.update st.network.callAt i c)
    (h_draft : ∀ change backends, c.draft = some (change, backends) → backends ≠ [] →
      tried backends ≠ [])
    (h_others : (∃ j, j ≠ i ∧ expectsDefault (st.network.callAt j) = true) →
      HasDefault n.velocity)
    (h_this : expectsDefault c = true → HasDefault n.velocity)
    (h_valid : ∀ commit ∈ (st.advance n).commits, ValidCommit commit) :
    Inv (st.advance n) where
  quiet h_not := by
    have h_not : st.created = false := h_not
    rw [h_created] at h_not
    cases h_not
  drafts j change backends h_j := by
    obtain ⟨-, h_c⟩ | ⟨-, h_old⟩ := Suspended.update_cases calls (rfl : n.callAt j = _)
    · exact h_draft change backends (h_c ▸ h_j)
    · exact h.drafts j change backends (h_old ▸ h_j)
  expected j h_j := by
    obtain ⟨-, h_c⟩ | ⟨h_ne, h_old⟩ := Suspended.update_cases calls (rfl : n.callAt j = _)
    · exact h_this (h_c ▸ h_j)
    · exact h_others ⟨j, h_ne, h_old ▸ h_j⟩
  valid := h_valid

theorem commits_advance {n : Network} (h : n.log = st.network.log) :
    (st.advance n).commits = st.commits := if_pos (congrArg List.length h)

/-- Without a commit nothing is remembered. -/
theorem Inv.valid_advance (h : Inv st) {n : Network} (h_log : n.log = st.network.log) :
    ∀ commit ∈ (st.advance n).commits, ValidCommit commit := by
  rw [commits_advance h_log]
  exact h.valid

/-- What another call relies on is there. -/
theorem Inv.relied (h : Inv st) (h_other : ∃ j, j ≠ i ∧ expectsDefault (st.network.callAt j) = true) :
    HasDefault st.network.velocity := by
  obtain ⟨j, -, h_j⟩ := h_other
  exact h.expected j h_j

/-- A call goes on that keeps its draft, and `velocity.toml` stays. -/
theorem Inv.goesOn (h : Inv st) (h_created : st.created = true)
    (h_at : st.network.callAt i ≠ .done)
    (h_draft : ∀ change backends, c.draft = some (change, backends) → backends ≠ [] →
      tried backends ≠ [])
    (h_this : expectsDefault c = true → HasDefault st.network.velocity) :
    Inv (st.advance (st.network.moveTo i c)) :=
  h.moves h_created (callAt_moveTo h_at c) h_draft h.relied h_this
    (h.valid_advance rfl)

/-- A call comes to a point where it has no draft. -/
theorem Inv.ends (h : Inv st) (h_created : st.created = true)
    (h_at : st.network.callAt i ≠ .done) (h_draft : c.draft = none)
    (h_expects : expectsDefault c = false) : Inv (st.advance (st.network.moveTo i c)) := by
  refine h.goesOn h_created h_at (fun change backends h_c => ?_) fun h_c => ?_
  · rw [h_draft] at h_c
    cases h_c
  · rw [h_expects] at h_c
    cases h_c

/-- An event of a change. -/
theorem Inv.changes {e : Event} (h : Inv st) (h_created : st.created = true)
    (h_guard : keepsDefault p st (.change e) = true) {n : Network}
    (h_step : st.network.step (st.panel p) e = some n) : Inv (st.advance n) := by
  cases e with
  | accept change =>
    simp only [Network.step] at h_step
    split at h_step
    · cases h_step
      exact h.moves h_created (Suspended.get_push Call.done _ (.accepted change))
        (fun _ _ h_draft => by cases h_draft) h.relied
        (fun h_expects => by cases h_expects) (h.valid_advance rfl)
    · cases h_step
  | read i =>
    simp only [Network.step] at h_step
    split at h_step
    · rename_i change h_at
      have h_ne : st.network.callAt i ≠ .done := by
        rw [h_at]
        intro h_done
        cases h_done
      split at h_step
      · rename_i backends h_drafted
        cases h_step
        refine h.goesOn h_created h_ne ?_ fun h_expects => by cases h_expects
        rintro _ _ ⟨⟩ h_backends
        refine tried_of_drafted h_drafted h_backends ?_
        rintro rfl
        -- the guard: the rotation finds a default server
        simp only [keepsDefault, h_at, Bool.or_eq_true, List.isEmpty_iff, List.any_eq_true]
          at h_guard
        obtain h_nil | h_some := h_guard
        · cases h_drafted
          exact absurd h_nil h_backends
        · exact tried_ne_nil.mpr h_some
      · cases h_step
        exact h.ends h_created h_ne rfl rfl
    · cases h_step
  | edit i =>
    simp only [Network.step] at h_step
    split at h_step
    · rename_i change backends h_at
      have h_ne : st.network.callAt i ≠ .done := by
        rw [h_at]
        intro h_done
        cases h_done
      have h_tried : backends ≠ [] → tried backends ≠ [] :=
        h.drafts i change backends (by rw [h_at]; rfl)
      split at h_step
      · rename_i h_file
        cases h_step
        refine h.goesOn h_created h_ne ?_ fun h_expects => ?_
        · rintro _ _ ⟨⟩
          exact h_tried
        · obtain ⟨_, _, ⟨⟩, h_backends⟩ := expectsDefault_iff.mp h_expects
          rw [h_file]
          exact hasDefault_velocityFile _ (h_tried h_backends)
      · cases h_step
        refine h.goesOn h_created h_ne ?_ fun h_expects => by cases h_expects
        rintro _ _ ⟨⟩
        exact h_tried
    · cases h_step
  | write i =>
    simp only [Network.step] at h_step
    split at h_step
    · rename_i change backends h_at
      have h_ne : st.network.callAt i ≠ .done := by
        rw [h_at]
        intro h_done
        cases h_done
      have h_tried : backends ≠ [] → tried backends ≠ [] :=
        h.drafts i change backends (by rw [h_at]; rfl)
      cases h_step
      refine h.moves h_created (callAt_moveTo h_ne _) ?_ ?_ ?_ (h.valid_advance rfl)
      · rintro _ _ ⟨⟩
        exact h_tried
      · rintro ⟨j, h_j, h_expects⟩
        -- the guard: an empty list is written only where no other change relies on it
        by_cases h_backends : backends = []
        · simp only [keepsDefault, h_at, h_backends, List.isEmpty_nil, Bool.not_true,
            Bool.false_or] at h_guard
          have h_not := noOther_spec rfl h_guard h_j
          rw [h_expects] at h_not
          cases h_not
        · exact hasDefault_velocityFile _ (h_tried h_backends)
      · intro h_expects
        obtain ⟨_, _, ⟨⟩, h_backends⟩ := expectsDefault_iff.mp h_expects
        exact hasDefault_velocityFile _ (h_tried h_backends)
    · cases h_step
  | commit i =>
    simp only [Network.step] at h_step
    split at h_step
    · rename_i change backends h_at
      have h_ne : st.network.callAt i ≠ .done := by
        rw [h_at]
        intro h_done
        cases h_done
      split at h_step
      · rename_i h_insertable
        cases h_step
        simp only [insertable, Bool.and_eq_true, decide_eq_true_eq] at h_insertable
        refine h.moves h_created (callAt_moveTo h_ne _) (fun _ _ h_draft => by cases h_draft)
          h.relied (fun h_expects => by cases h_expects)
          fun commit h_commit => ?_
        have h_longer : (st.network.log ++ [change]).length ≠ st.network.log.length := by
          rw [List.length_append]
          exact Nat.succ_ne_self _
        rw [State.advance, if_neg h_longer] at h_commit
        obtain h_commit | h_commit := List.mem_append.mp h_commit
        · exact h.valid commit h_commit
        · rw [List.mem_singleton.mp h_commit]
          refine ⟨h_insertable.2, fun h_backends => h.expected i ?_⟩
          rw [h_at]
          exact expectsDefault_iff.mpr ⟨change, backends, rfl, h_backends⟩
      · cases h_step
        exact h.ends h_created h_ne rfl rfl
    · cases h_step
  | throws i =>
    simp only [Network.step] at h_step
    split at h_step
    · cases h_step
    · cases h_step
    · rename_i h_done h_failed
      cases h_step
      exact h.ends h_created h_done rfl rfl

theorem Inv.step {e : TryEvent} (h : Inv st) (h_guard : keepsDefault p st e = true)
    (h_step : TryOrder.step p st e = some st') : Inv st' := by
  cases e with
  | create order servers =>
    simp only [TryOrder.step] at h_step
    split at h_step
    · cases h_step
    · rename_i h_created
      obtain ⟨backends, h_backends, rfl⟩ := Option.map_eq_some_iff.mp h_step
      have h_calls := h.quiet (Bool.not_eq_true _ ▸ h_created)
      split
      · rename_i h_storable
        simp only [State.storable, insertable, Bool.and_eq_true, decide_eq_true_eq] at h_storable
        refine .ofNoCalls h_calls fun commit h_commit => ?_
        obtain h_commit | h_commit := List.mem_append.mp h_commit
        · exact h.valid commit h_commit
        · rw [List.mem_singleton.mp h_commit]
          exact ⟨h_storable.1.2, fun _ => ⟨_, rfl, fun h_nil =>
            tried_of_wizardBackends h_backends (List.map_eq_nil_iff.mp h_nil)⟩⟩
      · exact .ofNoCalls h_calls h.valid
  | change e =>
    simp only [TryOrder.step] at h_step
    split at h_step
    · cases h_step
    · rename_i h_created
      have h_created : st.created = true := by simpa using h_created
      split at h_step
      · rename_i h_dangling
        cases h_step
        have h_call : st.network.callAt (callOf e) ≠ .done := by
          intro h_done
          cases e with
          | commit i =>
            have h_at : st.network.callAt i = .done := h_done
            rw [State.dangling, h_at] at h_dangling
            cases h_dangling
          | _ => cases h_dangling
        have h_fails : Inv (st.advance (st.network.moveTo (callOf e) .failed)) :=
          h.ends h_created h_call rfl rfl
        have h_same : st.advance (st.network.moveTo (callOf e) .failed) =
            { st with network := st.network.moveTo (callOf e) .failed } := by
          simp [State.advance, Network.moveTo]
        rw [h_same] at h_fails
        exact h_fails
      · obtain ⟨n, h_n, rfl⟩ := Option.map_eq_some_iff.mp h_step
        exact h.changes h_created h_guard h_n
  | serverAdded s supported =>
    cases h_step
    exact ⟨h.quiet, h.drafts, h.expected, h.valid⟩
  | serverDeleted s =>
    cases h_step
    exact ⟨h.quiet, h.drafts, h.expected, h.valid⟩
  | coreChanged s supported =>
    cases h_step
    exact ⟨h.quiet, h.drafts, h.expected, h.valid⟩

end Steps

/-- In the runs whose steps keep the default server, every commit leaves distinct orders and,
    if there are backends, a server to try. -/
theorem commits_valid (p : Panel) {st : State}
    (h : (machine p).ReachableUnder (fun st e => keepsDefault p st e = true) st) :
    ∀ commit ∈ st.commits, ValidCommit commit := by
  have h_inv : Inv st := by
    refine h.invariant ?_ fun _ _ _ h_inv h_guard h_step => Inv.step h_inv h_guard h_step
    rintro s ⟨-, h_commits, h_calls, -⟩
    refine .ofNoCalls h_calls fun c h_c => ?_
    rw [h_commits] at h_c
    cases h_c
  exact h_inv.valid

/-! ## A default server that is deleted -/

/-- Two servers and no network. -/
def twoServers : State where
  network := emptyNetwork
  created := false
  present := fun _ => true
  supported := fun _ => true
  commits := []

/-- The wizard, then an addition, an order, the deletion of the default server, and a removal
    that puts another one in its place. -/
def repaired : List TryEvent :=
  [.create [] [([0x61], [0x61]), ([0x62], [0x62])], .change (.accept (.addMember [0x63]))] ++
    (whole 0).map .change ++ [.change (.accept (.setOrder [[0x62]]))] ++
    (whole 1).map .change ++ [.serverDeleted [0x62], .change (.accept (.removeMember [0x63]))] ++
    (whole 2).map .change

theorem commits_valid_repaired :
    ∃ st, (machine plainPanel).runUnder (keepsDefault plainPanel) twoServers repaired = some st ∧
      st.commits.length = 4 ∧ ∀ commit ∈ st.commits, ValidCommit commit :=
  ⟨_, rfl, rfl, commits_valid plainPanel
    ((machine plainPanel).reachableUnder_of_runUnder (s := twoServers) repaired
      (.init ⟨rfl, rfl, rfl, rfl⟩) rfl)⟩

/-- The same deletion, but the secret is rotated next. -/
def rotated : List TryEvent :=
  [.create [] [([0x61], [0x61]), ([0x62], [0x62])], .serverDeleted [0x61],
    .change (.accept .rotateSecret)] ++ (whole 0).map .change

theorem rotation_keeps_no_default :
    ¬ ∀ (p : Panel) (st : State), (machine p).Reachable st →
      ∀ commit ∈ st.commits, ValidCommit commit := by
  intro h
  have h_run := (Option.some_get
    (x := (machine plainPanel).run twoServers rotated) rfl).symm
  have h_valid := h plainPanel _
    ((machine plainPanel).reachable_of_run rotated (.init ⟨rfl, rfl, rfl, rfl⟩) h_run)
    ([⟨[0x62], [0x62], none⟩], some ⟨[([0x62], [0x62])], []⟩) (by decide +kernel)
  obtain ⟨file, h_file, h_ne⟩ := h_valid.2 (List.cons_ne_nil _ _)
  cases h_file
  exact h_ne rfl

end Kubek.Networks.TryOrder
