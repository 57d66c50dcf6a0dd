/-
  Kubek.Access.Sessions

  Login sessions over time (modules/sessions/sessions.service.ts with the statements of
  user-sessions.repository.ts).

  A session expires by not being used: every request moves its expiry, but not more often
  than once in thirty seconds, so the stored moment lags behind the last use. How far is
  what `Window` says. A request reads the clock once, and clocks do not run backwards;
  ids and token hashes are never drawn twice. Addresses and user agents are left out.
-/

import Mathlib.Data.List.Nodup
import Kubek.Lib.Machine

namespace Kubek.Sessions

open Transition (Machine)

def TOUCH_THROTTLE_MS : Nat := 30000
def SESSION_TTL_MS : Nat := 30 * 24 * 60 * 60 * 1000

/-- `IUserSession`. -/
structure UserSession where
  id : String
  userId : String
  tokenHash : String
  createdAt : Nat
  lastSeenAt : Nat
  expiresAt : Option Nat
  revokedAt : Option Nat
  deriving DecidableEq

/-! ## The table -/

/-- `revokedAt IS NULL AND (expiresAt IS NULL OR expiresAt > ?)`. -/
def UserSession.active (now : Nat) (row : UserSession) : Bool :=
  row.revokedAt.isNone &&
    match row.expiresAt with
    | none => true
    | some expiresAt => decide (now < expiresAt)

abbrev Table := List UserSession

/-- An `UPDATE` with its condition. -/
def updateWhere (p : UserSession → Bool) (set : UserSession → UserSession) (rows : Table) : Table :=
  rows.map fun row => if p row then set row else row

def findByTokenHash (tokenHash : String) (now : Nat) (rows : Table) : Option UserSession :=
  rows.find? fun row => row.tokenHash == tokenHash && row.active now

/-- Without its order, the one that was seen last first. -/
def findActiveByUserId (userId : String) (now : Nat) (rows : Table) : List UserSession :=
  rows.filter fun row => row.userId == userId && row.active now

def touchRow (id : String) (lastSeenAt expiresAt : Nat) : Table → Table :=
  updateWhere (fun row => row.id == id && row.revokedAt.isNone)
    fun row => { row with lastSeenAt, expiresAt := some expiresAt }

def revokeRow (id : String) (revokedAt : Nat) : Table → Table :=
  updateWhere (fun row => row.id == id && row.revokedAt.isNone)
    fun row => { row with revokedAt := some revokedAt }

/-- `if (exceptId)` and `id != ?`: an empty id spares no session. -/
def spared (exceptId : Option String) (id : String) : Bool :=
  exceptId.any fun except => except != "" && id == except

def revokeAllRows (userId : String) (revokedAt : Nat) (exceptId : Option String) : Table → Table :=
  updateWhere
    (fun row => row.userId == userId && row.revokedAt.isNone && !spared exceptId row.id)
    fun row => { row with revokedAt := some revokedAt }

def deleteExpired (now : Nat) (rows : Table) : Table :=
  rows.filter fun row =>
    match row.expiresAt with
    | none => true
    | some expiresAt => !decide (expiresAt < now)

/-! ## The service -/

/-- The service, the accounts there are, and the function of `hashToken`. -/
structure Service where
  rows : Table
  accounts : List String
  lastTouch : String → Option Nat

/-- `SessionPublicView`. -/
structure SessionPublicView where
  id : String
  createdAt : Nat
  lastSeenAt : Nat
  expiresAt : Option Nat
  current : Bool
  deriving DecidableEq

def create (s : Service) (userId id tokenHash : String) (now : Nat) : Service :=
  { s with
    rows := s.rows ++ [{ id, userId, tokenHash, createdAt := now, lastSeenAt := now,
                         expiresAt := some (now + SESSION_TTL_MS), revokedAt := none }] }

def touch (s : Service) (sessionId : String) (now : Nat) : Service :=
  let previous := (s.lastTouch sessionId).getD 0
  if now - previous < TOUCH_THROTTLE_MS then s
  else
    { s with
      lastTouch := fun id => if id = sessionId then some now else s.lastTouch id
      rows := touchRow sessionId now (now + SESSION_TTL_MS) s.rows }

/-- `authenticate`: the session of a token, with what is thrown without one. -/
def authenticate (s : Service) (tokenHash : String) (now : Nat) :
    Service × Except String UserSession :=
  match findByTokenHash tokenHash now s.rows with
  | none => (s, .error "Invalid token")
  | some session =>
      if s.accounts.contains session.userId then (touch s session.id now, .ok session)
      else (s, .error "User not found for session")

def cleanupExpired (s : Service) (now : Nat) : Service :=
  { s with rows := deleteExpired now s.rows, lastTouch := fun _ => none }

/-- `revoke`; `none` where the session is not found. -/
def revoke (s : Service) (sessionId : String) (now : Nat) : Option Service :=
  if s.rows.any (·.id == sessionId) then
    some { s with
      rows := revokeRow sessionId now s.rows
      lastTouch := fun id => if id = sessionId then none else s.lastTouch id }
  else none

def revokeAllForUser (s : Service) (userId : String) (exceptSessionId : Option String) (now : Nat) :
    Service :=
  { s with
    rows := revokeAllRows userId now exceptSessionId s.rows
    lastTouch := fun id => if spared exceptSessionId id then s.lastTouch id else none }

def listForUser (s : Service) (userId : String) (currentSessionId : Option String) (now : Nat) :
    List SessionPublicView :=
  (findActiveByUserId userId now s.rows).map fun row =>
    { id := row.id, createdAt := row.createdAt, lastSeenAt := row.lastSeenAt
      expiresAt := row.expiresAt, current := currentSessionId == some row.id }

/-- The row of an account goes, and its sessions with it. -/
def removeAccount (s : Service) (userId : String) : Service :=
  { s with
    accounts := s.accounts.filter (· ≠ userId)
    rows := s.rows.filter (·.userId != userId) }

/-! ## Runs -/

inductive Event
  | login (userId id tokenHash : String) (now : Nat)
  | request (tokenHash : String) (now : Nat)
  | revoke (sessionId : String) (now : Nat)
  | revokeAll (userId : String) (except : Option String) (now : Nat)
  | cleanup (now : Nat)
  | removeAccount (userId : String)
  | addAccount (userId : String)

/-- What a login gave out. -/
structure Issued where
  id : String
  userId : String
  tokenHash : String
  deriving DecidableEq

/-- The service with its clock, and the history: the sessions there ever were, when each
    was used last, and which of them somebody ended. -/
structure Panel where
  service : Service
  clock : Nat
  issued : List Issued
  lastUse : String → Nat
  ended : String → Bool

def step (s : Panel) : Event → Option Panel
  | .login userId id tokenHash now =>
      -- The foreign key of the table.
      if s.service.accounts.contains userId then
        some { s with
          service := create s.service userId id tokenHash now
          clock := now
          issued := s.issued ++ [{ id, userId, tokenHash }]
          lastUse := fun other => if other = id then now else s.lastUse other }
      else none
  | .request tokenHash now =>
      let answer := authenticate s.service tokenHash now
      some { s with
        service := answer.1
        clock := now
        lastUse := fun other =>
          match answer.2 with
          | .ok session => if other = session.id then now else s.lastUse other
          | .error _ => s.lastUse other }
  | .revoke sessionId now =>
      (Sessions.revoke s.service sessionId now).map fun service =>
        { s with
          service
          clock := now
          ended := fun id => id == sessionId || s.ended id }
  | .revokeAll userId except now =>
      some { s with
        service := revokeAllForUser s.service userId except now
        clock := now
        ended := fun id => s.ended id ||
          s.issued.any fun x => x.id == id && x.userId == userId && !spared except id }
  | .cleanup now => some { s with service := cleanupExpired s.service now, clock := now }
  | .removeAccount userId =>
      some { s with
        service := Sessions.removeAccount s.service userId
        ended := fun id => s.ended id || s.issued.any fun x => x.id == id && x.userId == userId }
  | .addAccount userId =>
      some { s with service := { s.service with accounts := s.service.accounts ++ [userId] } }

/-- A clock that does not run backwards, ids and hashes that were never drawn before. -/
def sound (s : Panel) : Event → Bool
  | .login _ id tokenHash now =>
      decide (s.clock ≤ now) && !s.issued.any fun x => x.id == id || x.tokenHash == tokenHash
  | .request _ now => decide (s.clock ≤ now)
  | .revoke _ now => decide (s.clock ≤ now)
  | .revokeAll _ _ now => decide (s.clock ≤ now)
  | .cleanup now => decide (s.clock ≤ now)
  | .removeAccount _ => true
  | .addAccount _ => true

def start (accounts : List String) : Panel where
  service := { rows := [], accounts, lastTouch := fun _ => none }
  clock := 0
  issued := []
  lastUse := fun _ => 0
  ended := fun _ => false

def panel (accounts : List String) : Machine Panel Event where
  init := (· = start accounts)
  step := step

/-! ## Updates -/

section Updates

variable {rows : Table} {p : UserSession → Bool} {set : UserSession → UserSession}
  {row : UserSession}

/-- An update that leaves the columns alone that say whose session it is. -/
def KeepsKeys (set : UserSession → UserSession) : Prop :=
  ∀ row, (set row).id = row.id ∧ (set row).userId = row.userId ∧ (set row).tokenHash = row.tokenHash

theorem mem_updateWhere {row' : UserSession} :
    row' ∈ updateWhere p set rows ↔ ∃ row ∈ rows, (if p row then set row else row) = row' :=
  List.mem_map

theorem mem_updateWhere_of_not (h : row ∈ rows) (h_p : p row = false) :
    row ∈ updateWhere p set rows :=
  mem_updateWhere.mpr ⟨row, h, by rw [h_p]; rfl⟩

theorem mem_updateWhere_of_pos (h : row ∈ rows) (h_p : p row = true) :
    set row ∈ updateWhere p set rows :=
  mem_updateWhere.mpr ⟨row, h, by rw [h_p]; rfl⟩

/-- Every row has its keys from a row before, which the update left alone or set. -/
theorem of_mem_updateWhere (h_set : KeepsKeys set) {row' : UserSession}
    (h : row' ∈ updateWhere p set rows) :
    ∃ row ∈ rows, row'.id = row.id ∧ row'.userId = row.userId ∧ row'.tokenHash = row.tokenHash ∧
      (p row = true ∧ row' = set row ∨ p row = false ∧ row' = row) := by
  obtain ⟨row, h_row, rfl⟩ := mem_updateWhere.mp h
  refine ⟨row, h_row, ?_⟩
  cases h_p : p row with
  | true =>
    simp only [if_true, and_true, or_false, Bool.true_eq_false, false_and]
    exact h_set row
  | false => simp

theorem ids_updateWhere (h_set : KeepsKeys set) :
    (updateWhere p set rows).map (·.id) = rows.map (·.id) := by
  rw [updateWhere, List.map_map]
  apply List.map_congr_left
  intro row _
  rw [Function.comp_apply]
  split
  · exact (h_set row).1
  · rfl

/-- Two rows with one id are one row. -/
theorem eq_of_id (h : (rows.map (·.id)).Nodup) {a b : UserSession} (h_a : a ∈ rows) (h_b : b ∈ rows)
    (h_id : a.id = b.id) : a = b :=
  List.inj_on_of_nodup_map h h_a h_b h_id

end Updates

/-! ## The invariant -/

/-- The stored expiry lags behind the one that the last use would give, by less than the
    throttle. -/
def Window (use expires : Nat) : Prop :=
  expires ≤ use + SESSION_TTL_MS ∧ use + SESSION_TTL_MS < expires + TOUCH_THROTTLE_MS ∧
    SESSION_TTL_MS ≤ expires

/-- The row of a session that nobody ended. -/
structure Live (s : Panel) (x : Issued) (row : UserSession) : Prop where
  mem : row ∈ s.service.rows
  id : row.id = x.id
  unrevoked : row.revokedAt = none
  expires : ∃ e, row.expiresAt = some e ∧ Window (s.lastUse x.id) e ∧
    ∀ v, s.service.lastTouch x.id = some v →
      e = v + SESSION_TTL_MS ∧ s.lastUse x.id < v + TOUCH_THROTTLE_MS

/-- The row is gone, and its time was over by then. -/
structure Gone (s : Panel) (x : Issued) : Prop where
  over_ : s.lastUse x.id + SESSION_TTL_MS < s.clock + TOUCH_THROTTLE_MS
  absent : ∀ row ∈ s.service.rows, row.id ≠ x.id

structure Inv (s : Panel) : Prop where
  issuedId : (s.issued.map (·.id)).Nodup
  issuedHash : (s.issued.map (·.tokenHash)).Nodup
  rowId : (s.service.rows.map (·.id)).Nodup
  rows : ∀ row ∈ s.service.rows, ∃ x ∈ s.issued,
    x.id = row.id ∧ x.userId = row.userId ∧ x.tokenHash = row.tokenHash
  used : ∀ x ∈ s.issued, s.lastUse x.id ≤ s.clock
  live : ∀ x ∈ s.issued, s.ended x.id = false →
    x.userId ∈ s.service.accounts ∧ ((∃ row, Live s x row) ∨ Gone s x)
  dead : ∀ x ∈ s.issued, s.ended x.id = true →
    ∀ row ∈ s.service.rows, row.id = x.id → row.revokedAt ≠ none
  endedIssued : ∀ id, s.ended id = true → ∃ x ∈ s.issued, x.id = id
  touched : ∀ id v, s.service.lastTouch id = some v → ∃ x ∈ s.issued, x.id = id

section Steps

variable {s s' : Panel} {x : Issued} {row : UserSession} {now : Nat}

theorem issued_ext (h : Inv s) {y : Issued} (h_x : x ∈ s.issued) (h_y : y ∈ s.issued)
    (h_id : x.id = y.id) : x = y :=
  List.inj_on_of_nodup_map h.issuedId h_x h_y h_id

/-- The row of an issued session belongs to the same account, with the same hash. -/
theorem keys_of_row (h : Inv s) (h_x : x ∈ s.issued) (h_row : row ∈ s.service.rows)
    (h_id : row.id = x.id) : row.userId = x.userId ∧ row.tokenHash = x.tokenHash := by
  obtain ⟨y, h_y, h_yid, h_user, h_hash⟩ := h.rows row h_row
  obtain rfl := issued_ext h h_y h_x (h_yid.trans h_id)
  exact ⟨h_user.symm, h_hash.symm⟩

/-- Time passes. -/
theorem Inv.later (h : Inv s) (h_clock : s.clock ≤ now) : Inv { s with clock := now } := by
  refine { h with
    used := fun x h_x => Nat.le_trans (h.used x h_x) h_clock
    live := fun x h_x h_open => ?_ }
  obtain ⟨h_account, ⟨row, h_live⟩ | h_gone⟩ := h.live x h_x h_open
  · exact ⟨h_account, .inl ⟨row, { h_live with }⟩⟩
  · exact ⟨h_account, .inr ⟨Nat.lt_of_lt_of_le h_gone.over_ (Nat.add_le_add_right h_clock _),
      h_gone.absent⟩⟩

theorem inv_start (accounts : List String) : Inv (start accounts) := by
  refine ⟨List.nodup_nil, List.nodup_nil, List.nodup_nil, ?_, ?_, ?_, ?_, ?_, ?_⟩
  · intro row h_row
    cases h_row
  · intro x h_x
    cases h_x
  · intro x h_x
    cases h_x
  · intro x h_x
    cases h_x
  · intro id h_id
    cases h_id
  · intro id v h_v
    cases h_v

theorem window_now (now : Nat) : Window now (now + SESSION_TTL_MS) := by
  rw [Window, TOUCH_THROTTLE_MS]
  omega

theorem inv_login (h : Inv s) {userId id tokenHash : String} (h_clock : s.clock ≤ now)
    (h_fresh : ∀ x ∈ s.issued, x.id ≠ id ∧ x.tokenHash ≠ tokenHash)
    (h_account : userId ∈ s.service.accounts) :
    Inv { s with
      service := create s.service userId id tokenHash now
      clock := now
      issued := s.issued ++ [{ id, userId, tokenHash }]
      lastUse := fun other => if other = id then now else s.lastUse other } := by
  have h_not : ∀ x ∈ s.issued, (if x.id = id then now else s.lastUse x.id) = s.lastUse x.id :=
    fun x h_x => if_neg (h_fresh x h_x).1
  have h_rows : ∀ row ∈ s.service.rows, row.id ≠ id := by
    intro row h_row h_eq
    obtain ⟨x, h_x, h_id, -⟩ := h.rows row h_row
    exact (h_fresh x h_x).1 (h_id.trans h_eq)
  refine ⟨?_, ?_, ?_, fun row h_row => ?_, fun x h_x => ?_, fun x h_x h_open => ?_,
    fun x h_x h_ended row h_row h_id => ?_, fun other h_other => ?_, fun other v h_v => ?_⟩
  · rw [List.map_append, List.nodup_append]
    refine ⟨h.issuedId, by simp, ?_⟩
    rintro a h_a b h_b rfl
    obtain ⟨x, h_x, rfl⟩ := List.mem_map.mp h_a
    exact (h_fresh x h_x).1 (by simpa using h_b)
  · rw [List.map_append, List.nodup_append]
    refine ⟨h.issuedHash, by simp, ?_⟩
    rintro a h_a b h_b rfl
    obtain ⟨x, h_x, rfl⟩ := List.mem_map.mp h_a
    exact (h_fresh x h_x).2 (by simpa using h_b)
  · rw [create, List.map_append, List.nodup_append]
    refine ⟨h.rowId, by simp, ?_⟩
    rintro a h_a b h_b rfl
    obtain ⟨row, h_row, rfl⟩ := List.mem_map.mp h_a
    exact h_rows row h_row (by simpa using h_b)
  · obtain h_row | h_row := List.mem_append.mp h_row
    · obtain ⟨x, h_x, h_keys⟩ := h.rows row h_row
      exact ⟨x, List.mem_append_left _ h_x, h_keys⟩
    · rw [List.mem_singleton.mp h_row]
      exact ⟨_, List.mem_append_right _ (List.mem_singleton_self _), rfl, rfl, rfl⟩
  · obtain h_x | h_x := List.mem_append.mp h_x
    · dsimp only
      rw [h_not x h_x]
      exact Nat.le_trans (h.used x h_x) h_clock
    · rw [List.mem_singleton.mp h_x]
      exact Nat.le_of_eq (if_pos rfl)
  · obtain h_x | h_x := List.mem_append.mp h_x
    · obtain ⟨h_in, ⟨row, h_live⟩ | h_gone⟩ := h.live x h_x h_open
      · refine ⟨h_in, .inl ⟨row, List.mem_append_left _ h_live.mem, h_live.id, h_live.unrevoked, ?_⟩⟩
        dsimp only
        rw [h_not x h_x]
        exact h_live.expires
      · refine ⟨h_in, .inr ⟨?_, fun row h_row => ?_⟩⟩
        · dsimp only
          rw [h_not x h_x]
          exact Nat.lt_of_lt_of_le h_gone.over_ (Nat.add_le_add_right h_clock _)
        · obtain h_row | h_row := List.mem_append.mp h_row
          · exact h_gone.absent row h_row
          · rw [List.mem_singleton.mp h_row]
            exact (h_fresh x h_x).1.symm
    · obtain rfl := List.mem_singleton.mp h_x
      refine ⟨h_account, .inl ⟨_, List.mem_append_right _ (List.mem_singleton_self _), rfl, rfl,
        now + SESSION_TTL_MS, rfl, ?_, fun v h_v => ?_⟩⟩
      · dsimp only
        rw [if_pos rfl]
        exact window_now now
      · -- a new id was never touched
        obtain ⟨y, h_y, h_id⟩ := h.touched id v h_v
        exact absurd h_id (h_fresh y h_y).1
  · obtain h_row | h_row := List.mem_append.mp h_row
    · obtain h_x | h_x := List.mem_append.mp h_x
      · exact h.dead x h_x h_ended row h_row h_id
      · rw [List.mem_singleton.mp h_x] at h_id
        exact absurd h_id (h_rows row h_row)
    · obtain h_x | h_x := List.mem_append.mp h_x
      · rw [List.mem_singleton.mp h_row] at h_id
        exact absurd h_id.symm (h_fresh x h_x).1
      · rw [List.mem_singleton.mp h_x] at h_ended
        obtain ⟨y, h_y, h_id⟩ := h.endedIssued id h_ended
        exact absurd h_id (h_fresh y h_y).1
  · obtain ⟨x, h_x, h_id⟩ := h.endedIssued other h_other
    exact ⟨x, List.mem_append_left _ h_x, h_id⟩
  · obtain ⟨x, h_x, h_id⟩ := h.touched other v h_v
    exact ⟨x, List.mem_append_left _ h_x, h_id⟩

/-! ### A request -/

theorem UserSession.active_iff :
    row.active now = true ↔ row.revokedAt = none ∧ ∀ e, row.expiresAt = some e → now < e := by
  rw [UserSession.active, Bool.and_eq_true, Option.isNone_iff_eq_none]
  refine and_congr_right fun _ => ?_
  cases row.expiresAt with
  | none => simp
  | some e => simp

theorem of_findByTokenHash {rows : Table} {tokenHash : String}
    (h : findByTokenHash tokenHash now rows = some row) :
    row ∈ rows ∧ row.tokenHash = tokenHash ∧ row.active now = true := by
  have h_found := List.find?_some h
  rw [Bool.and_eq_true, beq_iff_eq] at h_found
  exact ⟨List.mem_of_find?_eq_some h, h_found⟩

/-- What a touch does: it is passed over within the throttle of the last one, or it moves
    the row's expiry. -/
theorem touch_cases (service : Service) (id : String) (now : Nat) :
    (touch service id now = service ∧
      now < (service.lastTouch id).getD 0 + TOUCH_THROTTLE_MS) ∨
    touch service id now =
      { service with
        lastTouch := fun other => if other = id then some now else service.lastTouch other
        rows := touchRow id now (now + SESSION_TTL_MS) service.rows } := by
  rw [touch]
  split
  · refine .inl ⟨rfl, ?_⟩
    omega
  · exact .inr rfl

theorem keepsKeys_touch (lastSeenAt : Nat) (expiresAt : Option Nat) :
    KeepsKeys fun row => { row with lastSeenAt, expiresAt } :=
  fun _ => ⟨rfl, rfl, rfl⟩

theorem keepsKeys_revoke (revokedAt : Option Nat) : KeepsKeys fun row => { row with revokedAt } :=
  fun _ => ⟨rfl, rfl, rfl⟩

/-- The one row of a session that nobody ended. -/
theorem Inv.live_of_row (h : Inv s) (h_x : x ∈ s.issued) (h_row : row ∈ s.service.rows)
    (h_id : row.id = x.id) (h_open : s.ended x.id = false) : Live s x row := by
  obtain ⟨-, ⟨row', h_live⟩ | h_gone⟩ := h.live x h_x h_open
  · have h_eq := eq_of_id h.rowId h_live.mem h_row (h_live.id.trans h_id.symm)
    rwa [h_eq] at h_live
  · exact absurd h_id (h_gone.absent row h_row)

/-- A session is used; its row may be touched. -/
theorem inv_use (h : Inv s) (h_clock : s.clock ≤ now) (h_row : row ∈ s.service.rows)
    (h_unrevoked : row.revokedAt = none) :
    Inv { s with
      service := touch s.service row.id now
      clock := now
      lastUse := fun other => if other = row.id then now else s.lastUse other } := by
  have h_used : ∀ x ∈ s.issued, (if x.id = row.id then now else s.lastUse x.id) ≤ now := by
    intro x h_x
    split
    · exact Nat.le_refl now
    · exact Nat.le_trans (h.used x h_x) h_clock
  obtain ⟨h_same, h_throttled⟩ | h_touched := touch_cases s.service row.id now
  · rw [h_same]
    refine { h with used := h_used, live := fun x h_x h_open => ?_ }
    obtain ⟨h_account, h_or⟩ := h.live x h_x h_open
    refine ⟨h_account, ?_⟩
    by_cases h_id : x.id = row.id
    · have h_live := h.live_of_row h_x h_row h_id.symm h_open
      obtain ⟨e, h_e, ⟨h_le, h_lt, h_ttl⟩, h_last⟩ := h_live.expires
      have h_use := h.used x h_x
      have h_v : ∀ v, s.service.lastTouch x.id = some v → now < v + TOUCH_THROTTLE_MS := by
        intro v h_v
        rw [← h_id, h_v] at h_throttled
        exact h_throttled
      refine .inl ⟨row, h_row, h_id.symm, h_unrevoked, e, h_e, ?_, ?_⟩
      · dsimp only
        rw [if_pos h_id]
        refine ⟨by omega, ?_, h_ttl⟩
        -- the last touch is at most a throttle old, or there was none since the clock started
        cases h_touch : s.service.lastTouch x.id with
        | none =>
          rw [← h_id, h_touch, Option.getD_none] at h_throttled
          omega
        | some v =>
          have := h_v v h_touch
          have := (h_last v h_touch).1
          omega
      · intro v h_touch
        dsimp only
        rw [if_pos h_id]
        exact ⟨(h_last v h_touch).1, h_v v h_touch⟩
    · obtain ⟨r, h_live⟩ | h_gone := h_or
      · refine .inl ⟨r, h_live.mem, h_live.id, h_live.unrevoked, ?_⟩
        dsimp only
        rw [if_neg h_id]
        exact h_live.expires
      · refine .inr ⟨?_, h_gone.absent⟩
        dsimp only
        rw [if_neg h_id]
        exact Nat.lt_of_lt_of_le h_gone.over_ (Nat.add_le_add_right h_clock _)
  · rw [h_touched]
    have h_keys := keepsKeys_touch now (some (now + SESSION_TTL_MS))
    have h_rows : ∀ r ∈ touchRow row.id now (now + SESSION_TTL_MS) s.service.rows,
        ∃ r' ∈ s.service.rows, r.id = r'.id ∧ r.userId = r'.userId ∧ r.tokenHash = r'.tokenHash ∧
          r.revokedAt = r'.revokedAt := by
      intro r h_r
      obtain ⟨r', h_r', h_id, h_user, h_hash, ⟨-, rfl⟩ | ⟨-, rfl⟩⟩ := of_mem_updateWhere h_keys h_r
      · exact ⟨r', h_r', h_id, h_user, h_hash, rfl⟩
      · exact ⟨r, h_r', rfl, rfl, rfl, rfl⟩
    refine { h with
      rowId := ?_, rows := fun r h_r => ?_, used := h_used, live := fun x h_x h_open => ?_,
      dead := fun x h_x h_ended r h_r h_id => ?_, touched := fun id v h_v => ?_ }
    · rw [touchRow, ids_updateWhere h_keys]
      exact h.rowId
    · obtain ⟨r', h_r', h_id, h_user, h_hash, -⟩ := h_rows r h_r
      rw [h_id, h_user, h_hash]
      exact h.rows r' h_r'
    · obtain ⟨h_account, h_or⟩ := h.live x h_x h_open
      refine ⟨h_account, ?_⟩
      by_cases h_id : x.id = row.id
      · refine .inl ⟨_, mem_updateWhere_of_pos h_row (by simp [h_unrevoked]), h_id.symm,
          h_unrevoked, now + SESSION_TTL_MS, rfl, ?_, ?_⟩
        · dsimp only
          rw [if_pos h_id]
          exact window_now now
        · intro v h_v
          dsimp only at h_v ⊢
          rw [if_pos h_id] at h_v ⊢
          obtain rfl := Option.some.inj h_v
          rw [TOUCH_THROTTLE_MS]
          omega
      · obtain ⟨r, h_live⟩ | h_gone := h_or
        · have h_other : (r.id == row.id) = false := by
            rw [h_live.id]
            exact beq_false_of_ne h_id
          refine .inl ⟨r, mem_updateWhere_of_not h_live.mem (by rw [h_other]; rfl), h_live.id,
            h_live.unrevoked, ?_⟩
          dsimp only
          rw [if_neg h_id, if_neg h_id]
          exact h_live.expires
        · refine .inr ⟨?_, fun r h_r => ?_⟩
          · dsimp only
            rw [if_neg h_id]
            exact Nat.lt_of_lt_of_le h_gone.over_ (Nat.add_le_add_right h_clock _)
          · obtain ⟨r', h_r', h_rid, -⟩ := h_rows r h_r
            rw [h_rid]
            exact h_gone.absent r' h_r'
    · obtain ⟨r', h_r', h_rid, -, -, h_revoked⟩ := h_rows r h_r
      rw [h_revoked]
      exact h.dead x h_x h_ended r' h_r' (h_rid.symm.trans h_id)
    · dsimp only at h_v
      split at h_v
      · rename_i h_id
        obtain ⟨x, h_x, h_xid, -⟩ := h.rows row h_row
        exact ⟨x, h_x, h_xid.trans h_id.symm⟩
      · exact h.touched id v h_v

/-! ### Ending sessions -/

/-- Sessions are revoked: the rows are chosen by `p`, and `ended` is told the same. -/
theorem inv_revokeWhere (h : Inv s) (h_clock : s.clock ≤ now) {p : UserSession → Bool}
    {lastTouch : String → Option Nat} {ended : String → Bool}
    (h_touch : ∀ id v, lastTouch id = some v → s.service.lastTouch id = some v)
    (h_mono : ∀ id, s.ended id = true → ended id = true)
    (h_new : ∀ x ∈ s.issued, ended x.id = true → s.ended x.id = true ∨
      ∀ row ∈ s.service.rows, row.id = x.id → row.revokedAt = none → p row = true)
    (h_open : ∀ x ∈ s.issued, ended x.id = false → ∀ row ∈ s.service.rows, row.id = x.id →
      p row = false)
    (h_issued : ∀ id, ended id = true → ∃ x ∈ s.issued, x.id = id) :
    Inv { s with
      service := { s.service with
        rows := updateWhere p (fun row => { row with revokedAt := some now }) s.service.rows
        lastTouch }
      clock := now
      ended } := by
  have h_keys := keepsKeys_revoke (some now)
  refine { h with
    rowId := ?_, rows := fun r h_r => ?_, used := fun x h_x => Nat.le_trans (h.used x h_x) h_clock,
    live := fun x h_x h_not => ?_, dead := fun x h_x h_ended r h_r h_id => ?_,
    endedIssued := h_issued, touched := fun id v h_v => h.touched id v (h_touch id v h_v) }
  · rw [ids_updateWhere h_keys]
    exact h.rowId
  · obtain ⟨r', h_r', h_id, h_user, h_hash, -⟩ := of_mem_updateWhere h_keys h_r
    rw [h_id, h_user, h_hash]
    exact h.rows r' h_r'
  · have h_was : s.ended x.id = false :=
      Bool.eq_false_iff.mpr fun h_true => by simp [h_mono x.id h_true] at h_not
    obtain ⟨h_account, ⟨r, h_live⟩ | h_gone⟩ := h.live x h_x h_was
    · refine ⟨h_account, .inl ⟨r, ?_, h_live.id, h_live.unrevoked, ?_⟩⟩
      · exact mem_updateWhere_of_not h_live.mem (h_open x h_x h_not r h_live.mem h_live.id)
      · obtain ⟨e, h_e, h_window, h_last⟩ := h_live.expires
        exact ⟨e, h_e, h_window, fun v h_v => h_last v (h_touch x.id v h_v)⟩
    · refine ⟨h_account, .inr ⟨Nat.lt_of_lt_of_le h_gone.over_ (Nat.add_le_add_right h_clock _),
        fun r h_r => ?_⟩⟩
      obtain ⟨r', h_r', h_id, -⟩ := of_mem_updateWhere h_keys h_r
      rw [h_id]
      exact h_gone.absent r' h_r'
  · obtain ⟨r', h_r', h_rid, -, -, ⟨-, rfl⟩ | ⟨h_p, rfl⟩⟩ := of_mem_updateWhere h_keys h_r
    · exact Option.some_ne_none now
    · -- a row that was passed over was revoked before
      obtain h_was | h_all := h_new x h_x h_ended
      · exact h.dead x h_x h_was r h_r' h_id
      · intro h_none
        rw [h_all r h_r' h_id h_none] at h_p
        cases h_p

theorem inv_revoke (h : Inv s) (h_clock : s.clock ≤ now) {sessionId : String} {service : Service}
    (h_revoke : revoke s.service sessionId now = some service) :
    Inv { s with service, clock := now, ended := fun id => id == sessionId || s.ended id } := by
  obtain ⟨h_any, h_eq⟩ := Option.ite_none_right_eq_some.mp h_revoke
  obtain rfl := Option.some.inj h_eq
  obtain ⟨row, h_row, h_id⟩ := List.any_eq_true.mp h_any
  obtain ⟨x, h_x, h_xid, -⟩ := h.rows row h_row
  refine inv_revokeWhere h h_clock ?_ ?_ ?_ ?_ ?_
  · intro id v h_v
    exact (Option.ite_none_left_eq_some.mp h_v).2
  · intro id h_ended
    simp [h_ended]
  · intro y _ h_ended
    rw [Bool.or_eq_true, beq_iff_eq] at h_ended
    obtain h_y | h_ended := h_ended
    · right
      intro r _ h_r h_none
      simp [h_r, h_y, h_none]
    · exact .inl h_ended
  · intro y _ h_not r _ h_r
    rw [Bool.or_eq_false_iff] at h_not
    rw [h_r, h_not.1, Bool.false_and]
  · intro id h_ended
    rw [Bool.or_eq_true, beq_iff_eq] at h_ended
    obtain rfl | h_ended := h_ended
    · exact ⟨x, h_x, h_xid.trans (beq_iff_eq.mp h_id)⟩
    · exact h.endedIssued id h_ended

theorem inv_revokeAll (h : Inv s) (h_clock : s.clock ≤ now) (userId : String)
    (except : Option String) :
    Inv { s with
      service := revokeAllForUser s.service userId except now
      clock := now
      ended := fun id => s.ended id ||
        s.issued.any fun x => x.id == id && x.userId == userId && !spared except id } := by
  have h_any : ∀ x ∈ s.issued, ∀ row ∈ s.service.rows, row.id = x.id →
      (s.issued.any fun y => y.id == x.id && y.userId == userId && !spared except x.id) =
        (row.userId == userId && !spared except row.id) := by
    intro x h_x row h_row h_id
    rw [(keys_of_row h h_x h_row h_id).1, h_id, Bool.eq_iff_iff, List.any_eq_true]
    constructor
    · rintro ⟨y, h_y, h_eq⟩
      rw [Bool.and_eq_true, Bool.and_eq_true, beq_iff_eq] at h_eq
      obtain rfl := issued_ext h h_y h_x h_eq.1.1
      rw [h_eq.1.2, h_eq.2, Bool.and_self]
    · intro h_eq
      exact ⟨x, h_x, by rw [beq_self_eq_true, Bool.true_and, h_eq]⟩
  refine inv_revokeWhere h h_clock ?_ ?_ ?_ ?_ ?_
  · intro id v h_v
    exact (Option.ite_none_right_eq_some.mp h_v).2
  · intro id h_ended
    rw [h_ended, Bool.true_or]
  · intro x h_x h_ended
    rw [Bool.or_eq_true] at h_ended
    refine h_ended.imp id fun h_now row h_row h_id h_none => ?_
    rw [h_any x h_x row h_row h_id, Bool.and_eq_true] at h_now
    rw [h_now.1, h_now.2, h_none]
    rfl
  · intro x h_x h_not row h_row h_id
    rw [Bool.or_eq_false_iff, h_any x h_x row h_row h_id] at h_not
    rw [Bool.and_right_comm, h_not.2, Bool.false_and]
  · intro id h_ended
    rw [Bool.or_eq_true, List.any_eq_true] at h_ended
    obtain h_ended | ⟨x, h_x, h_eq⟩ := h_ended
    · exact h.endedIssued id h_ended
    · rw [Bool.and_eq_true, Bool.and_eq_true, beq_iff_eq] at h_eq
      exact ⟨x, h_x, h_eq.1.1⟩

theorem inv_cleanup (h : Inv s) (h_clock : s.clock ≤ now) :
    Inv { s with service := cleanupExpired s.service now, clock := now } := by
  have h_sub : ∀ r ∈ deleteExpired now s.service.rows, r ∈ s.service.rows :=
    fun _ h_r => List.mem_of_mem_filter h_r
  refine { h with
    rowId := h.rowId.sublist (List.filter_sublist.map _)
    rows := fun r h_r => h.rows r (h_sub r h_r)
    used := fun x h_x => Nat.le_trans (h.used x h_x) h_clock
    live := fun x h_x h_open => ?_
    dead := fun x h_x h_ended r h_r => h.dead x h_x h_ended r (h_sub r h_r)
    touched := fun id v h_v => by cases h_v }
  obtain ⟨h_account, ⟨row, h_live⟩ | h_gone⟩ := h.live x h_x h_open
  · obtain ⟨e, h_e, h_window, -⟩ := h_live.expires
    refine ⟨h_account, ?_⟩
    by_cases h_over : e < now
    · refine .inr ⟨?_, fun r h_r h_id => ?_⟩
      · have := h_window.2.1
        dsimp only
        omega
      · have h_kept := (List.mem_filter.mp h_r).2
        rw [eq_of_id h.rowId (h_sub r h_r) h_live.mem (h_id.trans h_live.id.symm), h_e] at h_kept
        simp [h_over] at h_kept
    · refine .inl ⟨row, List.mem_filter.mpr ⟨h_live.mem, ?_⟩, h_live.id, h_live.unrevoked, e, h_e,
        h_window, fun v h_v => by cases h_v⟩
      rw [h_e]
      simp [h_over]
  · exact ⟨h_account, .inr ⟨Nat.lt_of_lt_of_le h_gone.over_ (Nat.add_le_add_right h_clock _),
      fun r h_r => h_gone.absent r (h_sub r h_r)⟩⟩

theorem inv_removeAccount (h : Inv s) (userId : String) :
    Inv { s with
      service := removeAccount s.service userId
      ended := fun id => s.ended id ||
        s.issued.any fun x => x.id == id && x.userId == userId } := by
  have h_sub : ∀ r ∈ (removeAccount s.service userId).rows, r ∈ s.service.rows :=
    fun _ h_r => List.mem_of_mem_filter h_r
  refine { h with
    rowId := h.rowId.sublist (List.filter_sublist.map _)
    rows := fun r h_r => h.rows r (h_sub r h_r)
    live := fun x h_x h_open => ?_
    dead := fun x h_x h_ended r h_r h_id => ?_
    endedIssued := fun id h_ended => ?_ }
  · rw [Bool.or_eq_false_iff, List.any_eq_false] at h_open
    have h_other : x.userId ≠ userId := by simpa using h_open.2 x h_x
    obtain ⟨h_account, ⟨row, h_live⟩ | h_gone⟩ := h.live x h_x h_open.1
    · refine ⟨List.mem_filter.mpr ⟨h_account, by simpa using h_other⟩, .inl ⟨row, ?_, h_live.id,
        h_live.unrevoked, h_live.expires⟩⟩
      refine List.mem_filter.mpr ⟨h_live.mem, ?_⟩
      rw [(keys_of_row h h_x h_live.mem h_live.id).1]
      exact bne_iff_ne.mpr h_other
    · exact ⟨List.mem_filter.mpr ⟨h_account, by simpa using h_other⟩,
        .inr ⟨h_gone.over_, fun r h_r => h_gone.absent r (h_sub r h_r)⟩⟩
  · rw [Bool.or_eq_true, List.any_eq_true] at h_ended
    obtain h_ended | ⟨y, h_y, h_eq⟩ := h_ended
    · exact h.dead x h_x h_ended r (h_sub r h_r) h_id
    · -- the row would belong to the account that is gone
      rw [Bool.and_eq_true, beq_iff_eq, beq_iff_eq] at h_eq
      obtain rfl := issued_ext h h_y h_x h_eq.1
      have h_kept := (List.mem_filter.mp h_r).2
      rw [(keys_of_row h h_x (h_sub r h_r) h_id).1, h_eq.2] at h_kept
      simp at h_kept
  · rw [Bool.or_eq_true, List.any_eq_true] at h_ended
    obtain h_ended | ⟨y, h_y, h_eq⟩ := h_ended
    · exact h.endedIssued id h_ended
    · rw [Bool.and_eq_true, beq_iff_eq] at h_eq
      exact ⟨y, h_y, h_eq.1⟩

theorem Inv.step (h : Inv s) {event : Event} (h_sound : sound s event = true)
    (h_step : Sessions.step s event = some s') : Inv s' := by
  cases event with
  | login userId id tokenHash now =>
    obtain ⟨h_account, h_eq⟩ := Option.ite_none_right_eq_some.mp h_step
    obtain rfl := Option.some.inj h_eq
    rw [sound, Bool.and_eq_true, decide_eq_true_eq, Bool.not_eq_true', List.any_eq_false] at h_sound
    refine inv_login h h_sound.1 (fun x h_x => ?_) (by simpa using h_account)
    simpa using h_sound.2 x h_x
  | request tokenHash now =>
    obtain rfl := Option.some.inj h_step
    have h_clock : s.clock ≤ now := of_decide_eq_true h_sound
    rw [authenticate]
    cases h_found : findByTokenHash tokenHash now s.service.rows with
    | none => exact h.later h_clock
    | some row =>
      obtain ⟨h_row, -, h_active⟩ := of_findByTokenHash h_found
      dsimp only
      split
      · exact inv_use h h_clock h_row (UserSession.active_iff.mp h_active).1
      · exact h.later h_clock
  | revoke sessionId now =>
    obtain ⟨service, h_revoke, rfl⟩ := Option.map_eq_some_iff.mp h_step
    exact inv_revoke h (of_decide_eq_true h_sound) h_revoke
  | revokeAll userId except now =>
    obtain rfl := Option.some.inj h_step
    exact inv_revokeAll h (of_decide_eq_true h_sound) userId except
  | cleanup now =>
    obtain rfl := Option.some.inj h_step
    exact inv_cleanup h (of_decide_eq_true h_sound)
  | removeAccount userId =>
    obtain rfl := Option.some.inj h_step
    exact inv_removeAccount h userId
  | addAccount userId =>
    obtain rfl := Option.some.inj h_step
    refine { h with live := fun x h_x h_open => ?_ }
    obtain ⟨h_account, h_or⟩ := h.live x h_x h_open
    refine ⟨List.mem_append_left _ h_account, ?_⟩
    obtain ⟨row, h_live⟩ | h_gone := h_or
    · exact .inl ⟨row, { h_live with }⟩
    · exact .inr { h_gone with }

end Steps

/-! ## Every run -/

section Runs

variable {s : Panel} {x : Issued} {row : UserSession} {now : Nat}

theorem inv_of_reachable {accounts : List String}
    (h : (panel accounts).ReachableUnder (fun s event => sound s event = true) s) : Inv s :=
  h.invariant (fun _ h_init => h_init ▸ inv_start accounts) fun _ _ _ h_inv => h_inv.step

/-- An active row is the row of a session that nobody ended, whose account is still there and
    whose time is not over. -/
theorem Inv.of_active (h : Inv s) (h_row : row ∈ s.service.rows) (h_active : row.active now = true) :
    ∃ x ∈ s.issued, row.id = x.id ∧ row.userId = x.userId ∧ row.tokenHash = x.tokenHash ∧
      s.ended x.id = false ∧ x.userId ∈ s.service.accounts ∧
      now < s.lastUse x.id + SESSION_TTL_MS := by
  obtain ⟨h_unrevoked, h_time⟩ := UserSession.active_iff.mp h_active
  obtain ⟨x, h_x, h_id, h_user, h_hash⟩ := h.rows row h_row
  have h_open : s.ended x.id = false :=
    Bool.eq_false_iff.mpr fun h_ended => h.dead x h_x h_ended row h_row h_id.symm h_unrevoked
  obtain ⟨e, h_e, h_window, -⟩ := (h.live_of_row h_x h_row h_id.symm h_open).expires
  have h_now := h_time e h_e
  have h_le := h_window.1
  refine ⟨x, h_x, h_id.symm, h_user.symm, h_hash.symm, h_open, (h.live x h_x h_open).1, ?_⟩
  omega

/-- While the window of a session lasts, its row is there and active. -/
theorem Inv.active_of_window (h : Inv s) (h_clock : s.clock ≤ now) (h_x : x ∈ s.issued)
    (h_open : s.ended x.id = false)
    (h_now : now + TOUCH_THROTTLE_MS ≤ s.lastUse x.id + SESSION_TTL_MS) :
    ∃ row ∈ s.service.rows, row.id = x.id ∧ row.active now = true := by
  obtain ⟨-, ⟨row, h_live⟩ | h_gone⟩ := h.live x h_x h_open
  · obtain ⟨e, h_e, h_window, -⟩ := h_live.expires
    have h_lt := h_window.2.1
    refine ⟨row, h_live.mem, h_live.id, UserSession.active_iff.mpr ⟨h_live.unrevoked, ?_⟩⟩
    rintro e' h_e'
    obtain rfl := Option.some.inj (h_e.symm.trans h_e')
    omega
  · have := h_gone.over_
    omega

/-- A token opens its session just where the row is active. -/
theorem Inv.authenticate_iff (h : Inv s) (h_x : x ∈ s.issued) :
    (∃ session, (authenticate s.service x.tokenHash now).2 = .ok session) ↔
      ∃ row ∈ s.service.rows, row.id = x.id ∧ row.active now = true := by
  constructor
  · rintro ⟨session, h_ok⟩
    rw [authenticate] at h_ok
    cases h_found : findByTokenHash x.tokenHash now s.service.rows with
    | none =>
      rw [h_found] at h_ok
      cases h_ok
    | some row =>
      obtain ⟨h_row, h_hash, h_active⟩ := of_findByTokenHash h_found
      obtain ⟨y, h_y, h_id, -, h_yhash, -⟩ := h.of_active h_row h_active
      have h_eq := List.inj_on_of_nodup_map h.issuedHash h_x h_y (h_hash.symm.trans h_yhash)
      exact ⟨row, h_row, h_eq ▸ h_id, h_active⟩
  · rintro ⟨row, h_row, h_id, h_active⟩
    have h_hash := (keys_of_row h h_x h_row h_id).2
    have h_some : (findByTokenHash x.tokenHash now s.service.rows).isSome := by
      rw [findByTokenHash, List.find?_isSome]
      exact ⟨row, h_row, by rw [h_hash, h_active, beq_self_eq_true, Bool.and_self]⟩
    obtain ⟨found, h_found⟩ := Option.isSome_iff_exists.mp h_some
    obtain ⟨h_mem, -, h_found_active⟩ := of_findByTokenHash h_found
    obtain ⟨y, h_y, h_yid, h_user, -, -, h_account, -⟩ := h.of_active h_mem h_found_active
    refine ⟨found, ?_⟩
    rw [authenticate, h_found]
    dsimp only
    rw [if_pos (by simpa [h_user] using h_account)]

end Runs

end Kubek.Sessions
