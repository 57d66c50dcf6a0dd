/-
  Kubek.Access.Revocation

  What becomes of access that was taken from an account while other requests about the
  account were waiting.

  A handler that writes back the account it loaded writes back the access it loaded.
  Where the access is still what it was then, the write brings nothing back
  (`step_keeps_revoked`, `revoked_stays_revoked`); where it was revoked meanwhile, the
  write undoes the revocation (`password_change_restores_admin`).
-/

import Kubek.Access.AccountWrites

namespace Kubek.Access

open JsMap Transition

/-! ## One piece of access -/

/-- What an administrator can take from an account. -/
inductive AccessItem
  | admin
  | role (id : RoleId)
  | level (area : AccessArea) (level : AccessLevel)
  | ext (key : String)
  | server (id : ServerId)
  deriving DecidableEq, Repr

/-- The account has it of its own; levels it has through a role come with the role. -/
def holdsItem (user : User) : AccessItem → Bool
  | .admin => user.isAdmin
  | .role id => user.roles.contains id
  | .level area level => levelAtLeast ((levels user.grants).get area) level
  | .ext key => user.extPermissions.contains key
  | .server id => !user.serversRestrict.enabled || user.serversRestrict.allowed.contains id

/-- The request gives it. -/
def grantsItem (dto : UpdateAccountDto) : AccessItem → Bool
  | .admin => dto.isAdmin == some true
  | .role id => (dto.roles.getD []).contains id
  | .level area level =>
      match dto.grants with
      | none => false
      | some grants => levelAtLeast ((levels grants).get area) level
  | .ext key => (dto.extPermissions.getD []).contains key
  | .server id =>
      match dto.serversRestrict with
      | none => false
      | some restrict => !restrict.enabled || restrict.allowed.contains id

/-- The `users` table shows it. -/
def AccessTables.shows (t : AccessTables) (id : String) (item : AccessItem) : Bool :=
  match t.findById id with
  | some user => holdsItem user item
  | none => false

theorem shows_iff {t : AccessTables} {id : String} {item : AccessItem} :
    t.shows id item = true ↔ ∃ user, t.findById id = some user ∧ holdsItem user item = true := by
  rw [AccessTables.shows]
  cases t.findById id with
  | none => simp
  | some user => simp

/-- The access columns of an account. -/
structure AccessColumns where
  isAdmin : Bool
  roles : List RoleId
  grants : AccessMap
  extPermissions : List String
  serversRestrict : UserServersRestrict
  deriving DecidableEq

def User.accessColumns (user : User) : AccessColumns where
  isAdmin := user.isAdmin
  roles := user.roles
  grants := user.grants
  extPermissions := user.extPermissions
  serversRestrict := user.serversRestrict

theorem holdsItem_congr {user user' : User} (h : user.accessColumns = user'.accessColumns)
    (item : AccessItem) : holdsItem user item = holdsItem user' item := by
  simp only [User.accessColumns, AccessColumns.mk.injEq] at h
  obtain ⟨h_admin, h_roles, h_grants, h_ext, h_restrict⟩ := h
  cases item <;> simp only [holdsItem, h_admin, h_roles, h_grants, h_ext, h_restrict]

/-- What `updateAccount` is about to store holds what it loaded or what it was asked to give. -/
theorem holdsItem_merged {actor user : User} {dto : UpdateAccountDto} {hash : String}
    {roles : List Role} {item : AccessItem}
    (h : holdsItem (AccessTables.withAccess roles (AccessTables.merged actor user dto hash)) item =
      true) : grantsItem dto item = true ∨ holdsItem user item = true := by
  cases item with
  | admin =>
    show (dto.isAdmin == some true) = true ∨ user.isAdmin = true
    have h_admin : (if actor.isAdmin then dto.isAdmin.getD user.isAdmin else user.isAdmin) =
        true := h
    split at h_admin
    · cases h_dto : dto.isAdmin with
      | none => exact .inr (by simpa [h_dto] using h_admin)
      | some value => exact .inl (by simpa [h_dto] using h_admin)
    · exact .inr h_admin
  | role id =>
    have h_role : id ∈ (dto.roles.map unique).getD user.roles := List.contains_iff_mem.mp h
    cases h_dto : dto.roles with
    | none => exact .inr (by simpa [holdsItem, h_dto] using h_role)
    | some ids => exact .inl (by simpa [grantsItem, h_dto] using h_role)
  | level area level =>
    have h_level : levelAtLeast ((levels (dto.grants.getD user.grants)).get area) level = true := h
    cases h_dto : dto.grants with
    | none => exact .inr (by simpa [holdsItem, h_dto] using h_level)
    | some grants => exact .inl (by simpa [grantsItem, h_dto] using h_level)
  | ext key =>
    have h_ext : key ∈ (dto.extPermissions.map unique).getD user.extPermissions :=
      List.contains_iff_mem.mp h
    cases h_dto : dto.extPermissions with
    | none => exact .inr (by simpa [holdsItem, h_dto] using h_ext)
    | some keys => exact .inl (by simpa [grantsItem, h_dto] using h_ext)
  | server id =>
    have h_server : (!(dto.serversRestrict.getD user.serversRestrict).enabled ||
      (dto.serversRestrict.getD user.serversRestrict).allowed.contains id) = true := h
    cases h_dto : dto.serversRestrict with
    | none => exact .inr (by simpa [holdsItem, h_dto] using h_server)
    | some restrict => exact .inl (by simpa [grantsItem, h_dto] using h_server)

/-! ## Writing an account -/

section Write

variable {t t' : AccessTables} {user : User} {id : String} {item : AccessItem}

theorem levels_levels (raw : AccessMap) : levels (levels raw) = levels raw := by
  simp only [levels, JsObject.filter, List.filter_filter, Bool.and_self]

/-- Unknown roles and servers are dropped on the way into the table, nothing joins. -/
theorem holdsItem_userRow
    (h : holdsItem (t'.deserialize (t.userRow user)) item = true) : holdsItem user item = true := by
  cases item with
  | admin => exact h
  | role id =>
    have h_role : id ∈ unique (user.roles.filter fun r => t.roles.any (·.id == r)) :=
      List.contains_iff_mem.mp h
    simpa [holdsItem] using (List.mem_filter.mp (mem_unique.mp h_role)).1
  | level area level =>
    have h_level : levelAtLeast ((levels (levels (levels user.grants))).get area) level = true := h
    rwa [levels_levels, levels_levels] at h_level
  | ext key =>
    have h_ext : key ∈ unique user.extPermissions := List.contains_iff_mem.mp h
    simpa [holdsItem] using h_ext
  | server id =>
    have h_server : user.serversRestrict.enabled = false ∨
        id ∈ unique (user.serversRestrict.allowed.filter t.servers.contains) := by
      simpa [holdsItem, AccessTables.deserialize, AccessTables.userRow] using h
    obtain h_all | h_one := h_server
    · simp [holdsItem, h_all]
    · simpa [holdsItem] using .inr (List.mem_filter.mp (mem_unique.mp h_one)).1

/-- What the table shows after a write: of the account what was written, of others what it
    showed before. -/
theorem shows_updateUser (h : t.updateUser user = .ok t') (h_shows : t'.shows id item = true) :
    (id = user.id ∧ holdsItem user item = true) ∨ (id ≠ user.id ∧ t.shows id item = true) := by
  obtain ⟨found, h_found, h_item⟩ := shows_iff.mp h_shows
  have h_t' := updateUser_eq_ok h
  subst h_t'
  obtain ⟨row', h_row', rfl⟩ := Option.map_eq_some_iff.mp h_found
  rw [List.find?_map] at h_row'
  obtain ⟨row, h_row, rfl⟩ := Option.map_eq_some_iff.mp h_row'
  have h_ids : ((fun u : UserRow => u.id == id) ∘ fun u : UserRow =>
      if u.id = user.id then t.userRow user else u) = fun u => u.id == id := by
    funext u
    simp only [Function.comp]
    split
    · rename_i h_u
      rw [h_u]
      rfl
    · rfl
  rw [h_ids] at h_row
  have h_id : row.id = id := by simpa using List.find?_some h_row
  by_cases h_user : row.id = user.id
  · rw [if_pos h_user] at h_item
    exact .inl ⟨h_id ▸ h_user, holdsItem_userRow h_item⟩
  · rw [if_neg h_user] at h_item
    have h_found_row : t.findById id = some (t.deserialize row) := by
      simp [AccessTables.findById, h_row]
    exact .inr ⟨h_id ▸ h_user, shows_iff.mpr ⟨_, h_found_row, h_item⟩⟩

end Write

/-! ## Steps -/

/-- The account a step writes back, as it was loaded. -/
def State.writesBack (s : State) : Event → Option Account
  | .hashed i _ =>
      match s.call i with
      | .hashing _ user _ => some user
      | .rehashing user => some user
      | _ => none
  | .compared i true =>
      match s.call i with
      | .rechecking user => some user
      | _ => none
  | .handle i true =>
      match s.call i with
      | .entering user change => if change = .disableTotp then none else some user
      | _ => none
  | _ => none

/-- The access of the account a step writes back is what it was when it was loaded. -/
def freshWrite (s : State) (e : Event) : Bool :=
  match s.writesBack e with
  | none => true
  | some user =>
      match s.accounts.tables.findById user.id with
      | none => true
      | some now => now.accessColumns == user.accessColumns

/-- The request a step stores gives the access to the account. -/
def grantsAt (s : State) (id : String) (item : AccessItem) : Event → Bool
  | .updateAccount actor username dto =>
      match s.accounts.loadManaged actor username with
      | .ok user => user.id == id && grantsItem dto item
      | .error _ => false
  | .hashed i _ =>
      match s.call i with
      | .hashing _ user dto => user.id == id && grantsItem dto item
      | _ => false
  | _ => false

section Steps

variable {s s' : State} {id : String} {item : AccessItem}

/-- `users.id` is a key. -/
def UniqueIds (t : AccessTables) : Prop := (t.users.map (·.id)).Nodup

theorem uniqueIds_updateUser {t t' : AccessTables} {user : User} (h_ids : UniqueIds t)
    (h : t.updateUser user = .ok t') : UniqueIds t' := by
  have h_t' := updateUser_eq_ok h
  subst h_t'
  have h_same : (t.users.map fun u => if u.id = user.id then t.userRow user else u).map (·.id) =
      t.users.map (·.id) := by
    rw [List.map_map]
    apply List.map_congr_left
    intro u _
    simp only [Function.comp]
    split
    · rename_i h_u
      exact h_u.symm
    · rfl
  rw [UniqueIds, h_same]
  exact h_ids

/-- An account found by its name is the one found by its id. -/
theorem findById_of_findByUsername {t : AccessTables} (h_ids : UniqueIds t) {username : String}
    {user : User} (h : t.findByUsername username = some user) : t.findById user.id = some user := by
  obtain ⟨row, h_row, rfl⟩ := findByUsername_mem h
  cases h_find : t.users.find? (·.id == row.id) with
  | none =>
    have h_not := List.find?_eq_none.mp h_find row h_row
    simp at h_not
  | some other =>
    have h_id : other.id = row.id := by simpa using List.find?_some h_find
    have h_eq : other = row :=
      List.inj_on_of_nodup_map h_ids (List.mem_of_find?_eq_some h_find) h_row h_id
    show (t.users.find? (·.id == row.id)).map t.deserialize = some (t.deserialize row)
    rw [h_find, h_eq, Option.map_some]

/-- What the account holds, the table shows. -/
def Fresh (accounts : Accounts) (user : Account) : Prop :=
  ∀ now, accounts.tables.findById user.id = some now → now.accessColumns = user.accessColumns

/-- A write of an account that is fresh, with nothing added, shows nothing new. -/
theorem shows_update {accounts accounts' : Accounts} {user account : Account}
    (h_fresh : Fresh accounts user) (h_id : account.id = user.id)
    (h_less : user.id = id → holdsItem account.toUser item = true →
      holdsItem user.toUser item = true)
    (h : accounts.update account = .ok accounts') (h_shows : accounts'.tables.shows id item = true) :
    accounts.tables.shows id item = true := by
  obtain ⟨tables, h_some, h_tables, rfl⟩ := update_eq_ok.mp h
  obtain ⟨rfl, h_item⟩ | ⟨-, h_before⟩ := shows_updateUser h_tables h_shows
  · obtain ⟨now, h_now⟩ := Option.isSome_iff_exists.mp h_some
    apply shows_iff.mpr ⟨now, h_now, _⟩
    rw [holdsItem_congr (h_fresh now (h_id ▸ h_now))]
    exact h_less h_id.symm h_item
  · exact h_before

theorem uniqueIds_update {accounts accounts' : Accounts} {account : Account}
    (h_ids : UniqueIds accounts.tables) (h : accounts.update account = .ok accounts') :
    UniqueIds accounts'.tables := by
  obtain ⟨tables, -, h_tables, rfl⟩ := update_eq_ok.mp h
  exact uniqueIds_updateUser h_ids h_tables

/-- No change of the two-factor settings touches the access it loaded. -/
theorem accessColumns_applyTo {user account : Account} {change : TwofaChange}
    (h : change.applyTo user = .ok account) :
    account.id = user.id ∧ account.accessColumns = user.accessColumns := by
  cases change with
  | primary method =>
    rw [TwofaChange.applyTo] at h
    split at h
    · cases h
    · split at h
      · cases h
      · cases h
        exact ⟨rfl, rfl⟩
  | _ =>
    cases h
    exact ⟨rfl, rfl⟩

/-- A state after a step, against the one before: unique ids stay, and what was not shown is
    not shown. -/
structure Keeps (s s' : State) (id : String) (item : AccessItem) : Prop where
  ids : UniqueIds s.accounts.tables → UniqueIds s'.accounts.tables
  shows : s'.accounts.tables.shows id item = true → s.accounts.tables.shows id item = true

theorem Keeps.of_same (h : s'.accounts = s.accounts) : Keeps s s' id item := by
  constructor
  · rw [h]
    exact fun h_ids => h_ids
  · rw [h]
    exact fun h_shows => h_shows

/-- A handler's write keeps what its account keeps. -/
theorem keeps_stored {s₁ : State} {user : Account} {result : Except HttpError Accounts}
    (h_accounts : s₁.accounts = s.accounts)
    (h : ∀ accounts', result = .ok accounts' → ∃ account, s.accounts.update account = .ok accounts' ∧
      account.id = user.id ∧
        (user.id = id → holdsItem account.toUser item = true → holdsItem user.toUser item = true))
    (h_fresh : Fresh s.accounts user) : Keeps s (s₁.stored result) id item := by
  cases result with
  | error e => exact .of_same h_accounts
  | ok accounts' =>
    obtain ⟨account, h_update, h_id, h_less⟩ := h accounts' rfl
    exact ⟨fun h_ids => uniqueIds_update h_ids h_update,
      fun h_shows => shows_update h_fresh h_id h_less h_update h_shows⟩

theorem keeps_storePassword {s₁ : State} {user : Account} {hash : String}
    (h_accounts : s₁.accounts = s.accounts) (h_fresh : Fresh s.accounts user) :
    Keeps s (s₁.stored (s.accounts.storePassword user hash)) id item :=
  keeps_stored h_accounts (fun _ h_ok => ⟨_, h_ok, rfl, fun _ h_item => h_item⟩) h_fresh

theorem keeps_storeTwofa {s₁ : State} {user : Account} {change : TwofaChange}
    (h_accounts : s₁.accounts = s.accounts) (h_fresh : Fresh s.accounts user) :
    Keeps s (s₁.storeTwofa user change) id item := by
  rw [State.storeTwofa]
  cases h_change : change.applyTo user with
  | error e => exact .of_same h_accounts
  | ok account =>
    obtain ⟨h_id, h_columns⟩ := accessColumns_applyTo h_change
    apply keeps_stored h_accounts _ h_fresh
    intro accounts' h_ok
    rw [h_accounts] at h_ok
    exact ⟨account, h_ok, h_id, fun _ h_item => by rwa [← holdsItem_congr h_columns]⟩

theorem keeps_storeUpdate {s₁ : State} {actor : User} {user : Account} {dto : UpdateAccountDto}
    {hash : String} (h_accounts : s₁.accounts = s.accounts) (h_fresh : Fresh s.accounts user)
    (h_grant : (user.id == id && grantsItem dto item) = false) :
    Keeps s (s₁.stored (s.accounts.storeUpdate actor user dto hash)) id item := by
  apply keeps_stored h_accounts _ h_fresh
  intro accounts' h_ok
  obtain ⟨roles, -, -, h_update⟩ := storeUpdate_eq_ok.mp h_ok
  refine ⟨_, h_update, rfl, fun h_id h_item => ?_⟩
  obtain h_given | h_held := holdsItem_merged h_item
  · rw [h_id, h_given, beq_self_eq_true] at h_grant
    cases h_grant
  · exact h_held

theorem fresh_of_freshWrite {e : Event} {user : Account} (h : freshWrite s e = true)
    (h_writes : s.writesBack e = some user) : Fresh s.accounts user := by
  intro now h_now
  rw [freshWrite, h_writes] at h
  simp only [h_now, beq_iff_eq] at h
  exact h

/-- One step shows nothing that was not shown, unless it gives it. -/
theorem keeps_step {e : Event} (h_ids : UniqueIds s.accounts.tables)
    (h_fresh : freshWrite s e = true) (h_grant : grantsAt s id item e = false)
    (h : s.step e = some s') : Keeps s s' id item := by
  cases e with
  | updateAccount actor username dto =>
    rw [State.step] at h
    cases h_load : s.accounts.loadManaged actor username with
    | error e =>
      rw [h_load] at h
      cases h
      exact .of_same rfl
    | ok user =>
      simp only [h_load] at h
      split at h
      · cases h
        exact .of_same rfl
      · cases h
        simp only [grantsAt, h_load] at h_grant
        apply keeps_storeUpdate rfl _ h_grant
        obtain ⟨stored, h_found, -, rfl⟩ := loadManaged_eq_ok.mp h_load
        intro now h_now
        have h_stored := findById_of_findByUsername h_ids h_found
        have h_now' : s.accounts.tables.findById stored.id = some now := h_now
        rw [h_stored] at h_now'
        cases h_now'
        rfl
  | changePassword actor username =>
    rw [State.step] at h
    cases h_load : s.accounts.loadManaged actor username with
    | error e =>
      rw [h_load] at h
      cases h
      exact .of_same rfl
    | ok user =>
      rw [h_load] at h
      cases h
      exact .of_same rfl
  | changeTwofa account change =>
    rw [State.step] at h
    cases h_find : s.accounts.findById account with
    | none =>
      rw [h_find] at h
      cases h
    | some user =>
      rw [h_find] at h
      cases h
      exact .of_same rfl
  | handle i accepted =>
    rw [State.step] at h
    cases h_call : s.call i with
    | entering user change =>
      simp only [h_call] at h
      split at h
      · cases h
        exact .of_same rfl
      · rename_i h_accepted
        split at h
        · cases h
          exact .of_same rfl
        · rename_i h_change
          cases h
          apply keeps_storeTwofa (show (s.goOn i .finished).accounts = s.accounts from rfl)
          have h_true : accepted = true := by simpa using h_accepted
          subst h_true
          exact fresh_of_freshWrite h_fresh (by simp [State.writesBack, h_call, h_change])
    | _ =>
      rw [h_call] at h
      cases h
  | compared i equal =>
    rw [State.step] at h
    cases h_call : s.call i with
    | comparing user =>
      rw [h_call] at h
      cases h
      exact .of_same rfl
    | rechecking user =>
      simp only [h_call] at h
      split at h
      · rename_i h_equal
        cases h
        subst h_equal
        apply keeps_storeTwofa (show (s.goOn i .finished).accounts = s.accounts from rfl)
        exact fresh_of_freshWrite h_fresh (by simp [State.writesBack, h_call])
      · cases h
        exact .of_same rfl
    | _ =>
      rw [h_call] at h
      cases h
  | hashed i hash =>
    rw [State.step] at h
    cases h_call : s.call i with
    | hashing actor user dto =>
      rw [h_call] at h
      cases h
      apply keeps_storeUpdate (show (s.goOn i .finished).accounts = s.accounts from rfl)
      · exact fresh_of_freshWrite h_fresh (by simp [State.writesBack, h_call])
      · simpa [grantsAt, h_call] using h_grant
    | rehashing user =>
      rw [h_call] at h
      cases h
      apply keeps_storePassword (show (s.goOn i .finished).accounts = s.accounts from rfl)
      exact fresh_of_freshWrite h_fresh (by simp [State.writesBack, h_call])
    | _ =>
      rw [h_call] at h
      cases h

end Steps

/-! ## Runs -/

/-- Once the table does not show the access, with any requests waiting, it shows it in no later
    state of a run whose writes are fresh and that does not give it again. -/
theorem revoked_stays_revoked (s : State) (id : String) (item : AccessItem)
    (h_ids : UniqueIds s.accounts.tables) (h : s.accounts.tables.shows id item = false) {s' : State}
    (h_run : (runsFrom s).ReachableUnder
      (fun t e => freshWrite t e = true ∧ grantsAt t id item e = false) s') :
    s'.accounts.tables.shows id item = false := by
  have h_inv : UniqueIds s'.accounts.tables ∧ ¬ s'.accounts.tables.shows id item = true := by
    refine Machine.ReachableUnder.invariant
      (P := fun t => UniqueIds t.accounts.tables ∧ ¬ t.accounts.tables.shows id item = true)
      ?_ ?_ h_run
    · intro t h_init
      rw [show t = s from h_init, h]
      exact ⟨h_ids, Bool.false_ne_true⟩
    · intro t e t' h_t h_guard h_step
      have h_keeps : Keeps t t' id item := keeps_step h_t.1 h_guard.1 h_guard.2 h_step
      exact ⟨h_keeps.ids h_t.1, fun h_shows => h_t.2 (h_keeps.shows h_shows)⟩
  exact Bool.not_eq_true _ ▸ h_inv.2

/-- An administrator. -/
def root : User where
  id := "r"
  username := "root"
  password := "hash"
  isAdmin := true
  roles := []
  grants := .empty
  extPermissions := []
  access := { levels := .empty, ext := [] }
  serversRestrict := { enabled := false, allowed := [] }

/-- The account `alice`, an administrator too or not. -/
def alice (isAdmin : Bool) : State where
  accounts :=
    { tables :=
        { users :=
            [{ id := "a", username := "alice", password := "hash", isAdmin := isAdmin, roles := []
               grants := .empty, extPermissions := []
               serversRestrict := { enabled := false, allowed := [] } }]
          roles := []
          servers := [] }
      twofa := fun _ =>
        { totpSecret := none, telegram2faEnabled := false, twofaPrimary := none } }
  calls := []

/-- A password change that begins after the revocation leaves it. -/
theorem revoked_stays_revoked_alice :
    ∃ s', (runsFrom (alice false)).runUnder
      (fun t e => freshWrite t e && !grantsAt t "a" .admin e) (alice false)
      [.changePassword root "alice", .compared 0 true, .hashed 0 "new"] = some s' ∧
        s'.accounts.tables.shows "a" .admin = false := by
  refine ⟨_, rfl, ?_⟩
  apply revoked_stays_revoked (alice false) "a" .admin
  · rw [UniqueIds]
    decide
  · rfl
  · have h_run := (runsFrom (alice false)).reachableUnder_of_runUnder
      (G := fun t e => freshWrite t e && !grantsAt t "a" .admin e)
      [.changePassword root "alice", .compared 0 true, .hashed 0 "new"] (.init rfl) rfl
    apply h_run.mono
    intro t e h_guard
    rw [Bool.and_eq_true, Bool.not_eq_true'] at h_guard
    exact h_guard

/-- One that began before stores the account as it was: an administrator again, though the
    revocation was stored and no request gave the right back. -/
theorem password_change_restores_admin :
    ∃ s s', (runsFrom (alice true)).run (alice true)
        [.changePassword root "alice", .updateAccount root "alice" { isAdmin := some false }] =
          some s ∧
      s.accounts.tables.shows "a" .admin = false ∧
      (runsFrom (alice true)).runUnder (fun t e => !grantsAt t "a" .admin e) s
        [.compared 0 true, .hashed 0 "new"] = some s' ∧
      s'.accounts.tables.shows "a" .admin = true :=
  ⟨_, _, rfl, rfl, rfl, rfl⟩

end Kubek.Access
