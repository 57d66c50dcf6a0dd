/-
  Kubek.Networks.Members

  Changes of one stored network that interleave at their awaits
  (`network-members.service.ts`, `draftOf` and `write` of `network-context.service.ts`,
  `setMembers`).

  A change reads the member rows, later reads `velocity.toml`, writes it where it has to
  change, and at last puts all member rows in place of those there are. Two changes that
  overlap each put their own rows, so of two additions one is lost
  (`addition_lost`). In the runs in which rows and server list only change while no other
  change relies on them (`undisturbed`) none is.
-/

import Kubek.Lib.Machine
import Kubek.Lib.Suspended
import Kubek.Networks.Draft

namespace Kubek.Networks

open Properties (Text)
open Transition

/-! ## The system -/

/-- A change by what it has done so far. -/
inductive Call
  | accepted (change : Change)
  /-- The member rows are read. -/
  | drafted (change : Change) (backends : List Member)
  /-- `velocity.toml` is read and has to change. -/
  | edited (change : Change) (backends : List Member)
  /-- `velocity.toml` is written, or was found to be as it should. -/
  | written (change : Change) (backends : List Member)
  | done
  | failed
  deriving DecidableEq

structure Network where
  rows : List Member
  /-- What the server lists of `velocity.toml` hold; none while the file is missing. -/
  velocity : Option VelocityFile
  calls : List Call := []
  /-- The changes that reported success, in this order. -/
  log : List Change := []

inductive Event
  | accept (change : Change)
  | read (i : Nat)
  | edit (i : Nat)
  | write (i : Nat)
  | commit (i : Nat)
  /-- Something the change awaits throws. -/
  | throws (i : Nat)

namespace Network

def callAt (n : Network) (i : Nat) : Call := Suspended.get .done n.calls i

def moveTo (n : Network) (i : Nat) (c : Call) : Network := { n with calls := n.calls.set i c }

/-- The checks of a request. -/
def accepts (p : Panel) (n : Network) : Change → Bool
  | .addMember serverId =>
      p.serves serverId && n.rows.all fun m => m.serverId ≠ serverId
  | _ => true

def step (p : Panel) (n : Network) : Event → Option Network
  | .accept change =>
      if n.accepts p change then some { n with calls := n.calls ++ [.accepted change] } else none
  | .read i =>
      match n.callAt i with
      | .accepted change =>
          match Networks.drafted p n.rows change with
          | some backends => some (n.moveTo i (.drafted change backends))
          | none => some (n.moveTo i .failed)
      | _ => none
  | .edit i =>
      match n.callAt i with
      | .drafted change backends =>
          if n.velocity = some (velocityFile p backends) then
            some (n.moveTo i (.written change backends))
          else some (n.moveTo i (.edited change backends))
      | _ => none
  | .write i =>
      match n.callAt i with
      | .edited change backends =>
          some { n.moveTo i (.written change backends) with
            velocity := some (velocityFile p backends) }
      | _ => none
  | .commit i =>
      match n.callAt i with
      | .written change backends =>
          if insertable backends then
            some { n.moveTo i .done with rows := backends, log := n.log ++ [change] }
          else some (n.moveTo i .failed)
      | _ => none
  | .throws i =>
      match n.callAt i with
      | .done => none
      | .failed => none
      | _ => some (n.moveTo i .failed)

end Network

/-- A stored network with any rows and any `velocity.toml`. -/
def machine (p : Panel) : Machine Network Event where
  init n := n.calls = [] ∧ n.log = []
  step := Network.step p

/-! ## Changes that are kept -/

/-- The last successful change that names the server. -/
def lastOn (s : Text) (log : List Change) : Option Change :=
  log.foldl (fun found change => if change.server = some s then some change else found) none

/-- The backends of the rows, as a server list. -/
def listed (p : Panel) (rows : List Member) : List (Text × Text) :=
  rows.map fun m => (m.aliasName, p.address m.serverId)

/-- Once all changes have reported success, the rows hold what was added last and not what was
    removed last, and `velocity.toml` lists the rows. -/
def ChangesKept (p : Panel) (n : Network) : Prop :=
  (∀ c ∈ n.calls, c = .done) →
    (∀ s, lastOn s n.log = some (.addMember s) → s ∈ n.rows.map Member.serverId) ∧
    (∀ s, lastOn s n.log = some (.removeMember s) → s ∉ n.rows.map Member.serverId) ∧
    (n.log ≠ [] → ∃ file, n.velocity = some file ∧ file.servers.Perm (listed p n.rows))

/-- The backends of a change between its reading of the rows and its end. -/
def Call.draft : Call → Option (Change × List Member)
  | .drafted change backends => some (change, backends)
  | .edited change backends => some (change, backends)
  | .written change backends => some (change, backends)
  | _ => none

/-- The change has dealt with `velocity.toml` and not yet committed. -/
def Call.isWritten : Call → Bool
  | .written _ _ => true
  | _ => false

/-- No other change than `i` satisfies `q`. -/
def Network.noOther (n : Network) (i : Nat) (q : Call → Bool) : Bool :=
  (List.range n.calls.length).all fun j => j == i || !q (n.callAt j)

/-- The member rows only get other servers while no other change has read them and not ended,
    and the server list only gets other entries while no other change has dealt with it and not
    committed. -/
def undisturbed (p : Panel) (n : Network) : Event → Bool
  | .write i =>
      match n.callAt i with
      | .edited _ backends =>
          decide ((n.velocity.map VelocityFile.servers).any
            fun servers => servers.isPerm (listed p backends)) ||
            n.noOther i Call.isWritten
      | _ => true
  | .commit i =>
      match n.callAt i with
      | .written _ backends =>
          (served p n.rows).isPerm (backends.map Member.key) ||
            n.noOther i fun c => c.draft.isSome
      | _ => true
  | _ => true

/-! ## What undisturbed changes keep -/

/-- `velocity.toml` lists these backends. -/
def Lists (p : Panel) (n : Network) (backends : List Member) : Prop :=
  ∃ file, n.velocity = some file ∧ file.servers.Perm (listed p backends)

/-- The draft is made of rows that the network still has, up to the try order. -/
def Current (p : Panel) (rows : List Member) (change : Change) (backends : List Member) : Prop :=
  ∃ rows', drafted p rows' change = some backends ∧ (served p rows').Perm (served p rows)

/-- A server is only added if Velocity serves it. -/
def Allowed (p : Panel) (change : Change) : Prop :=
  ∀ s, change = .addMember s → p.serves s = true

structure Inv (p : Panel) (n : Network) : Prop where
  accepted : ∀ i change, n.callAt i = .accepted change → Allowed p change
  allowed : ∀ i change backends, (n.callAt i).draft = some (change, backends) → Allowed p change
  current : ∀ i change backends, (n.callAt i).draft = some (change, backends) →
    Current p n.rows change backends
  adds : ∀ s, lastOn s n.log = some (.addMember s) → ∃ k ∈ served p n.rows, k.1 = s
  removes : ∀ s, lastOn s n.log = some (.removeMember s) → ∀ k ∈ n.rows.map Member.key, k.1 ≠ s
  lists : ∀ i change backends, n.callAt i = .written change backends → Lists p n backends
  settled : n.log = [] ∨ Lists p n n.rows ∨ ∃ i, (n.callAt i).isWritten = true

section Steps

variable {p : Panel} {n n' : Network} {i : Nat} {c : Call} {change : Change}
  {backends : List Member}

theorem lastOn_concat (s : Text) (log : List Change) (change : Change) :
    lastOn s (log ++ [change]) = if change.server = some s then some change else lastOn s log := by
  rw [lastOn, List.foldl_append]
  rfl

theorem callAt_moveTo (h : n.callAt i ≠ .done) (c : Call) :
    (n.moveTo i c).callAt = Function.update n.callAt i c :=
  Suspended.get_set Call.done (Suspended.lt_of_get_ne Call.done h) c

/-- A call that has dealt with `velocity.toml` is one that has read the rows. -/
theorem draft_of_isWritten (h : c.isWritten = true) : c.draft.isSome = true := by
  cases c with
  | written change backends => rfl
  | _ => cases h

theorem noOther_spec {q : Call → Bool} (h_done : q .done = false) (h : n.noOther i q = true)
    {j : Nat} (h_ne : j ≠ i) : q (n.callAt j) = false := by
  by_cases h_lt : j < n.calls.length
  · have h_j := List.all_eq_true.mp h j (List.mem_range.mpr h_lt)
    simpa [h_ne] using h_j
  · have h_call : n.callAt j = .done := by
      rw [Network.callAt, Suspended.get, List.getElem?_eq_none (Nat.le_of_not_lt h_lt)]
      rfl
    rw [h_call, h_done]

/-- A call goes on, and rows and `velocity.toml` stay. -/
theorem Inv.moves (h : Inv p n) (calls : n'.callAt = Function.update n.callAt i c)
    (rows : n'.rows = n.rows) (log : n'.log = n.log) (velocity : n'.velocity = n.velocity)
    (h_was : (n.callAt i).isWritten = false)
    (h_accepted : ∀ change, c = .accepted change → Allowed p change)
    (h_draft : ∀ change backends, c.draft = some (change, backends) →
      Allowed p change ∧ Current p n.rows change backends)
    (h_lists : ∀ change backends, c = .written change backends → Lists p n backends) :
    Inv p n' where
  accepted j change h_j := by
    obtain ⟨-, h_c⟩ | ⟨-, h_old⟩ := Suspended.update_cases calls h_j
    · exact h_accepted change h_c
    · exact h.accepted j change h_old
  allowed j change backends h_j := by
    obtain ⟨-, h_c⟩ | ⟨-, h_old⟩ := Suspended.update_cases calls (rfl : n'.callAt j = _)
    · exact (h_draft change backends (h_c ▸ h_j)).1
    · exact h.allowed j change backends (h_old ▸ h_j)
  current j change backends h_j := by
    rw [rows]
    obtain ⟨-, h_c⟩ | ⟨-, h_old⟩ := Suspended.update_cases calls (rfl : n'.callAt j = _)
    · exact (h_draft change backends (h_c ▸ h_j)).2
    · exact h.current j change backends (h_old ▸ h_j)
  adds s h_s := by
    rw [rows]
    exact h.adds s (log ▸ h_s)
  removes s h_s := by
    rw [rows]
    exact h.removes s (log ▸ h_s)
  lists j change backends h_j := by
    rw [Lists, velocity]
    obtain ⟨-, h_c⟩ | ⟨-, h_old⟩ := Suspended.update_cases calls h_j
    · exact h_lists change backends h_c
    · exact h.lists j change backends h_old
  settled := by
    rw [log, Lists, velocity, rows]
    refine h.settled.imp_right (Or.imp_right fun ⟨j, h_j⟩ => ⟨j, ?_⟩)
    have h_ne : j ≠ i := by
      rintro rfl
      rw [h_was] at h_j
      cases h_j
    rw [calls, Function.update_of_ne h_ne]
    exact h_j

theorem isPerm_any {file : Option VelocityFile} {servers : List (Text × Text)}
    (h : (file.map VelocityFile.servers).any (fun l => l.isPerm servers) = true) :
    ∃ f, file = some f ∧ f.servers.Perm servers := by
  cases file with
  | none => cases h
  | some f => exact ⟨f, rfl, List.isPerm_iff.mp h⟩

/-- `velocity.toml` is written. -/
theorem Inv.writes (h : Inv p n) (h_at : n.callAt i = .edited change backends)
    (h_guard : undisturbed p n (.write i) = true)
    (calls : n'.callAt = Function.update n.callAt i (.written change backends))
    (rows : n'.rows = n.rows) (log : n'.log = n.log)
    (velocity : n'.velocity = some (velocityFile p backends)) : Inv p n' where
  accepted j change h_j := by
    obtain ⟨-, h_c⟩ | ⟨-, h_old⟩ := Suspended.update_cases calls h_j
    · cases h_c
    · exact h.accepted j change h_old
  allowed j ch b h_j := by
    obtain ⟨-, h_c⟩ | ⟨-, h_old⟩ := Suspended.update_cases calls (rfl : n'.callAt j = _)
    · refine h.allowed i ch b ?_
      rw [h_at, ← h_j, ← h_c]
      rfl
    · exact h.allowed j ch b (h_old ▸ h_j)
  current j ch b h_j := by
    rw [rows]
    obtain ⟨-, h_c⟩ | ⟨-, h_old⟩ := Suspended.update_cases calls (rfl : n'.callAt j = _)
    · refine h.current i ch b ?_
      rw [h_at, ← h_j, ← h_c]
      rfl
    · exact h.current j ch b (h_old ▸ h_j)
  adds s h_s := by
    rw [rows]
    exact h.adds s (log ▸ h_s)
  removes s h_s := by
    rw [rows]
    exact h.removes s (log ▸ h_s)
  lists j ch b h_j := by
    refine ⟨velocityFile p backends, velocity, ?_⟩
    obtain ⟨-, h_c⟩ | ⟨h_ne, h_old⟩ := Suspended.update_cases calls h_j
    · cases h_c
      exact .rfl
    · -- Another call relies on the list: then it is the list that was there.
      simp only [undisturbed, h_at, Bool.or_eq_true] at h_guard
      obtain h_same | h_alone := h_guard
      · obtain ⟨file, h_file, h_perm⟩ := isPerm_any (by simpa using h_same)
        obtain ⟨file', h_file', h_perm'⟩ := h.lists j ch b h_old
        rw [h_file] at h_file'
        cases h_file'
        exact h_perm.symm.trans h_perm'
      · have h_not := noOther_spec rfl h_alone h_ne
        rw [h_old] at h_not
        cases h_not
  settled := by
    refine .inr (.inr ⟨i, ?_⟩)
    rw [calls, Function.update_self]
    rfl

/-- The rows are replaced. -/
theorem Inv.commits (h : Inv p n) (h_at : n.callAt i = .written change backends)
    (h_guard : undisturbed p n (.commit i) = true)
    (calls : n'.callAt = Function.update n.callAt i .done)
    (rows : n'.rows = backends) (log : n'.log = n.log ++ [change])
    (velocity : n'.velocity = n.velocity) : Inv p n' := by
  have h_draft : (n.callAt i).draft = some (change, backends) := by rw [h_at]; rfl
  obtain ⟨rows₀, h_drafted, h_rows₀⟩ := h.current i change backends h_draft
  have h_mem : ∀ k : Text × Text, change.server ≠ some k.1 →
      (k ∈ backends.map Member.key ↔ k ∈ served p n.rows) := fun k h_k =>
    (mem_key_drafted h_drafted k h_k).trans h_rows₀.mem_iff
  constructor
  · intro j ch h_j
    obtain ⟨-, h_c⟩ | ⟨-, h_old⟩ := Suspended.update_cases calls h_j
    · cases h_c
    · exact h.accepted j ch h_old
  · intro j ch b h_j
    obtain ⟨-, h_c⟩ | ⟨-, h_old⟩ := Suspended.update_cases calls (rfl : n'.callAt j = _)
    · rw [← h_c] at h_j
      cases h_j
    · exact h.allowed j ch b (h_old ▸ h_j)
  · intro j ch b h_j
    obtain ⟨-, h_c⟩ | ⟨h_ne, h_old⟩ := Suspended.update_cases calls (rfl : n'.callAt j = _)
    · rw [← h_c] at h_j
      cases h_j
    · rw [← h_old] at h_j
      simp only [undisturbed, h_at, Bool.or_eq_true] at h_guard
      obtain h_same | h_alone := h_guard
      · obtain ⟨rows₁, h_b, h_rows₁⟩ := h.current j ch b h_j
        refine ⟨rows₁, h_b, h_rows₁.trans ?_⟩
        rw [rows]
        exact served_perm (List.isPerm_iff.mp h_same)
      · have h_not := noOther_spec (q := fun c => c.draft.isSome) rfl h_alone h_ne
        rw [h_j] at h_not
        cases h_not
  · intro s h_s
    rw [log, lastOn_concat] at h_s
    rw [rows]
    split at h_s
    · rename_i h_server
      cases h_s
      refine ⟨_, mem_served.mpr ⟨added_mem_drafted h_drafted, ?_⟩, rfl⟩
      exact h.allowed i _ _ h_draft s rfl
    · rename_i h_server
      obtain ⟨k, h_k, rfl⟩ := h.adds s h_s
      exact ⟨k, mem_served.mpr ⟨(h_mem k h_server).mpr h_k, (mem_served.mp h_k).2⟩, rfl⟩
  · intro s h_s k h_k
    rw [log, lastOn_concat] at h_s
    rw [rows] at h_k
    split at h_s
    · cases h_s
      exact not_mem_drafted h_drafted k h_k
    · rename_i h_server
      rintro rfl
      have h_old := (h_mem k h_server).mp h_k
      exact h.removes k.1 h_s k (mem_served.mp h_old).1 rfl
  · intro j ch b h_j
    rw [Lists, velocity]
    obtain ⟨-, h_c⟩ | ⟨-, h_old⟩ := Suspended.update_cases calls h_j
    · cases h_c
    · exact h.lists j ch b h_old
  · refine .inr (.inl ?_)
    rw [Lists, velocity, rows]
    exact h.lists i change backends h_at

/-- No change has failed. -/
def NoneFailed (n : Network) : Prop := ∀ i, n.callAt i ≠ .failed

theorem NoneFailed.moved (h : NoneFailed n') (calls : n'.callAt = Function.update n.callAt i c)
    (h_at : n.callAt i ≠ .failed) : NoneFailed n ∧ c ≠ .failed := by
  refine ⟨fun j h_j => ?_, fun h_c => ?_⟩
  · by_cases h_eq : j = i
    · rw [h_eq] at h_j
      exact h_at h_j
    · apply h j
      rw [calls, Function.update_of_ne h_eq]
      exact h_j
  · apply h i
    rw [calls, Function.update_self, h_c]

theorem Inv.step {e : Event} (h : NoneFailed n → Inv p n) (h_guard : undisturbed p n e = true)
    (h_step : n.step p e = some n') (h_none : NoneFailed n') : Inv p n' := by
  cases e with
  | accept change =>
    simp only [Network.step] at h_step
    split at h_step
    · rename_i h_accepts
      cases h_step
      have h_calls : Network.callAt { n with calls := n.calls ++ [.accepted change] } =
          Function.update n.callAt n.calls.length (.accepted change) :=
        Suspended.get_push Call.done n.calls (.accepted change)
      have h_new : n.callAt n.calls.length = .done := Suspended.get_length Call.done n.calls
      have h_inv := h (h_none.moved h_calls (by rw [h_new]; simp)).1
      refine h_inv.moves h_calls rfl rfl rfl ?_ ?_ ?_ ?_
      · rw [h_new]
        rfl
      · rintro ch ⟨⟩ s rfl
        simp only [Network.accepts, Bool.and_eq_true] at h_accepts
        exact h_accepts.1
      · rintro ch b ⟨⟩
      · rintro ch b ⟨⟩
    · cases h_step
  | read i =>
    simp only [Network.step] at h_step
    split at h_step
    · rename_i change h_at
      have h_calls : ∀ c, (n.moveTo i c).callAt = Function.update n.callAt i c :=
        callAt_moveTo (by rw [h_at]; simp)
      split at h_step
      · rename_i backends h_drafted
        cases h_step
        have h_inv := h (h_none.moved (h_calls _) (by rw [h_at]; simp)).1
        refine h_inv.moves (h_calls _) rfl rfl rfl ?_ ?_ ?_ ?_
        · rw [h_at]
          rfl
        · rintro ch ⟨⟩
        · rintro ch b ⟨⟩
          exact ⟨h_inv.accepted i _ h_at, n.rows, h_drafted, .rfl⟩
        · rintro ch b ⟨⟩
      · cases h_step
        exact absurd rfl (h_none.moved (h_calls _) (by rw [h_at]; simp)).2
    · cases h_step
  | edit i =>
    simp only [Network.step] at h_step
    split at h_step
    · rename_i change backends h_at
      have h_calls : ∀ c, (n.moveTo i c).callAt = Function.update n.callAt i c :=
        callAt_moveTo (by rw [h_at]; simp)
      have h_draft : (n.callAt i).draft = some (change, backends) := by rw [h_at]; rfl
      split at h_step
      · rename_i h_file
        cases h_step
        have h_inv := h (h_none.moved (h_calls _) (by rw [h_at]; simp)).1
        refine h_inv.moves (h_calls _) rfl rfl rfl ?_ ?_ ?_ ?_
        · rw [h_at]
          rfl
        · rintro ch ⟨⟩
        · rintro ch b ⟨⟩
          exact ⟨h_inv.allowed i _ _ h_draft, h_inv.current i _ _ h_draft⟩
        · rintro ch b ⟨⟩
          exact ⟨_, h_file, .rfl⟩
      · cases h_step
        have h_inv := h (h_none.moved (h_calls _) (by rw [h_at]; simp)).1
        refine h_inv.moves (h_calls _) rfl rfl rfl ?_ ?_ ?_ ?_
        · rw [h_at]
          rfl
        · rintro ch ⟨⟩
        · rintro ch b ⟨⟩
          exact ⟨h_inv.allowed i _ _ h_draft, h_inv.current i _ _ h_draft⟩
        · rintro ch b ⟨⟩
    · cases h_step
  | write i =>
    simp only [Network.step] at h_step
    split at h_step
    · rename_i change backends h_at
      cases h_step
      have h_calls := callAt_moveTo (n := n) (i := i) (by rw [h_at]; simp) (.written change backends)
      have h_inv := h (h_none.moved (n := n) h_calls (by rw [h_at]; simp)).1
      exact h_inv.writes h_at h_guard h_calls rfl rfl rfl
    · cases h_step
  | commit i =>
    simp only [Network.step] at h_step
    split at h_step
    · rename_i change backends h_at
      have h_calls : ∀ c, (n.moveTo i c).callAt = Function.update n.callAt i c :=
        callAt_moveTo (by rw [h_at]; simp)
      split at h_step
      · cases h_step
        have h_inv := h (h_none.moved (n := n) (h_calls .done) (by rw [h_at]; simp)).1
        exact h_inv.commits h_at h_guard (h_calls .done) rfl rfl rfl
      · cases h_step
        exact absurd rfl (h_none.moved (h_calls _) (by rw [h_at]; simp)).2
    · cases h_step
  | throws i =>
    simp only [Network.step] at h_step
    split at h_step
    · cases h_step
    · cases h_step
    · rename_i h_done h_failed
      cases h_step
      exact absurd rfl (h_none.moved (callAt_moveTo h_done _) h_failed).2

end Steps

/-- After any undisturbed changes that all report success the rows are what the changes made of
    them, and `velocity.toml` lists them. -/
theorem changesKept_of_reachableUnder (p : Panel) {n : Network}
    (h : (machine p).ReachableUnder (fun n e => undisturbed p n e = true) n) :
    ChangesKept p n := by
  intro h_done
  have h_inv : NoneFailed n → Inv p n := by
    refine h.invariant ?_ fun _ _ _ h_inv h_guard h_step => Inv.step h_inv h_guard h_step
    rintro m ⟨h_calls, h_log⟩ -
    have h_at : ∀ i, m.callAt i = .done := fun i => by
      rw [Network.callAt, h_calls]
      rfl
    refine ⟨?_, ?_, ?_, ?_, ?_, ?_, .inl h_log⟩
    · intro i change h_i
      rw [h_at] at h_i
      cases h_i
    · intro i change backends h_i
      rw [h_at] at h_i
      cases h_i
    · intro i change backends h_i
      rw [h_at] at h_i
      cases h_i
    · intro s h_s
      rw [h_log] at h_s
      cases h_s
    · intro s h_s
      rw [h_log] at h_s
      cases h_s
    · intro i change backends h_i
      rw [h_at] at h_i
      cases h_i
  have h_over : ∀ i, n.callAt i = .done := by
    intro i
    rw [Network.callAt, Suspended.get]
    cases h_i : n.calls[i]? with
    | none => rfl
    | some c => exact h_done c (List.mem_of_getElem? h_i)
  have h_n := h_inv fun i => by rw [h_over]; simp
  refine ⟨fun s h_s => ?_, fun s h_s h_mem => ?_, fun h_log => ?_⟩
  · obtain ⟨k, h_k, rfl⟩ := h_n.adds s h_s
    obtain ⟨m, h_m, rfl⟩ := List.mem_map.mp (mem_served.mp h_k).1
    exact List.mem_map_of_mem h_m
  · obtain ⟨m, h_m, rfl⟩ := List.mem_map.mp h_mem
    exact h_n.removes m.serverId h_s m.key (List.mem_map_of_mem h_m) rfl
  · obtain h_nil | h_lists | ⟨i, h_i⟩ := h_n.settled
    · exact absurd h_nil h_log
    · exact h_lists
    · rw [h_over] at h_i
      cases h_i

/-- Servers named by their identifiers, all of which Velocity serves. -/
def plainPanel : Panel where
  fold := id
  name := id
  serves := fun _ => true
  address := id

/-- A network without members whose proxy has not started. -/
def emptyNetwork : Network where
  rows := []
  velocity := none

/-- A change from its reading of the rows to its end. -/
def whole (i : Nat) : List Event := [.read i, .edit i, .write i, .commit i]

/-- Two additions and a removal, one after another. -/
def additionsInTurn : List Event :=
  [.accept (.addMember [0x61]), .accept (.addMember [0x62])] ++ whole 0 ++ whole 1 ++
    [.accept (.removeMember [0x61])] ++ whole 2

theorem changesKept_inTurn :
    ∃ n, (machine plainPanel).runUnder (undisturbed plainPanel) emptyNetwork additionsInTurn =
        some n ∧ n.rows.map Member.serverId = [[0x62]] ∧ n.log.length = 3 ∧
      ChangesKept plainPanel n :=
  ⟨_, rfl, rfl, rfl, changesKept_of_reachableUnder plainPanel
    ((machine plainPanel).reachableUnder_of_runUnder (s := emptyNetwork) additionsInTurn
      (.init ⟨rfl, rfl⟩) rfl)⟩

/-! ## A lost addition -/

/-- Both additions read the rows before one of them is in it. -/
def additionsAtOnce : List Event :=
  [.accept (.addMember [0x61]), .accept (.addMember [0x62]), .read 0, .read 1, .edit 0, .edit 1,
    .write 0, .write 1, .commit 0, .commit 1]

theorem addition_lost :
    ¬ ∀ (p : Panel) (n : Network), (machine p).Reachable n → ChangesKept p n := by
  intro h
  have h_run := (Option.some_get
    (x := (machine plainPanel).run emptyNetwork additionsAtOnce) rfl).symm
  have h_kept := h plainPanel _
    ((machine plainPanel).reachable_of_run additionsAtOnce (.init ⟨rfl, rfl⟩) h_run)
  have h_first := (h_kept (by decide +kernel)).1 [0x61] (by decide +kernel)
  exact absurd h_first (by decide +kernel)

end Kubek.Networks
