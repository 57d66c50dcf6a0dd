/-
  Kubek.Access.RoundTrip

  What an account that was created or updated reads back as (users.repository.ts, with
  accounts.policy.ts and the two requests of accounts.controller.ts that write access).

  The repository drops what the tables have no place for: repetitions, roles and servers
  that do not exist, levels their area does not have. The policy has decided on the value
  before it is written (`effectiveAccess`), the sessions of the account are kept or
  revoked by comparing two values (`accessChanged`). All three agree
  (`stores_what_policy_decided`).
-/

import Mathlib.Data.List.Perm.Subperm
import Kubek.Access.AccountWrites
import Kubek.Access.NoEscalation
import Kubek.Access.Revocation

namespace Kubek.Access

open Fallible JsMap

/-! ## Whole accounts -/

/-- The columns of `users` that no check reads. -/
structure PanelColumns where
  oobeCompleted : Bool
  dashboardLayout : Option String
  lastSeenWhatsNewVersion : Option String
  skinName : Option String
  deriving DecidableEq, Repr

/-- `IUser`, up to the time of the FTP password, which the repository only reads. -/
structure FullAccount extends Account where
  panel : PanelColumns

structure FullAccounts where
  accounts : Accounts
  panel : String → PanelColumns

namespace FullAccounts

variable (s : FullAccounts)

def deserialize (account : Account) : FullAccount :=
  { account with panel := s.panel account.id }

def findById (id : String) : Option FullAccount := (s.accounts.findById id).map s.deserialize

def findByUsername (username : String) : Option FullAccount :=
  (s.accounts.findByUsername username).map s.deserialize

/-- `AccountsService.update`, with `UsersRepository.update`. -/
def update (account : FullAccount) : Except HttpError FullAccounts := do
  let accounts ← s.accounts.update account.toAccount
  return { accounts := accounts, panel := Function.update s.panel account.id account.panel }

/-- `UsersRepository.create`. -/
def create (account : FullAccount) : Except HttpError FullAccounts := do
  let tables ← runSql (s.accounts.tables.createUser account.toUser)
  return {
    accounts :=
      { tables := tables, twofa := Function.update s.accounts.twofa account.id account.columns }
    panel := Function.update s.panel account.id account.panel }

/-- The account `updateAccount` stores, with the access the policy decided on. -/
def updated (actor : User) (user : FullAccount) (dto : UpdateAccountDto) (hash : String)
    (roles : List Role) : FullAccount :=
  { user with
    toUser := AccessTables.withAccess roles (AccessTables.merged actor user.toUser dto hash) }

/-- `updateAccount` from its hash on; `user` was loaded before it. -/
def updateAccount (actor : User) (user : FullAccount) (dto : UpdateAccountDto) (hash : String) :
    Except HttpError FullAccounts := do
  let roles ← s.accounts.tables.resolve (AccessTables.merged actor user.toUser dto hash).roles
  let updated := updated actor user dto hash roles
  enforce (canGrant actor.toAccessSubject (AccessTables.planOf roles updated.toUser))
  s.update updated

/-- The account `createAccount` stores. -/
def created (body : CreateAccountDto) (newId hash : String) : FullAccount where
  id := newId
  username := body.username
  password := hash
  isAdmin := false
  roles := body.roles
  grants := body.grants
  extPermissions := body.extPermissions
  access := { levels := .empty, ext := [] }
  serversRestrict := { enabled := !body.servers.isEmpty, allowed := body.servers }
  totpSecret := none
  totpEnabled := false
  telegram2faEnabled := false
  twofaPrimary := none
  panel := ⟨false, none, none, none⟩

/-- `createAccount`, with `AccountsService.create`. -/
def createAccount (actor : User) (body : CreateAccountDto) (newId hash : String) :
    Except HttpError FullAccounts := do
  let account := created body newId hash
  let roles ← s.accounts.tables.resolve body.roles
  enforce (canGrant actor.toAccessSubject (AccessTables.planOf roles account.toUser))
  refuseIf (s.accounts.tables.findByUsername body.username).isSome
    (.badRequest none "Username already exists")
  s.create account

end FullAccounts

/-! ## What agrees -/

/-- `isAccessMap`: what the request may set as levels. -/
def isAccessMap (grants : AccessMap) : Bool := grants.entries.all fun e => isAreaLevel e.1 e.2

/-- The primary keys of the tables that hold an account's lists. -/
structure UserRow.Keys (row : UserRow) : Prop where
  roles : row.roles.Nodup
  ext : row.extPermissions.Nodup
  servers : row.serversRestrict.allowed.Nodup

/-- The account read back is the account written: repetitions dropped, roles and servers
    that do not exist skipped, levels their area does not have dropped. -/
structure SameAccount (t : AccessTables) (written read : FullAccount) : Prop where
  id : read.id = written.id
  username : read.username = written.username
  password : read.password = written.password
  isAdmin : read.isAdmin = written.isAdmin
  roles : read.roles = unique (written.roles.filter fun id => t.roles.any (·.id == id))
  grants : read.grants = levels written.grants
  ext : read.extPermissions = unique written.extPermissions
  restricted : read.serversRestrict.enabled = written.serversRestrict.enabled
  servers : read.serversRestrict.allowed =
    unique (written.serversRestrict.allowed.filter t.servers.contains)
  totpEnabled : read.totpEnabled = written.totpEnabled
  totpSecret : read.totpSecret = if written.totpEnabled then written.totpSecret else none
  telegram2faEnabled : read.telegram2faEnabled = written.telegram2faEnabled
  twofaPrimary : read.twofaPrimary = written.twofaPrimary
  panel : read.panel = written.panel

/-- The same level in every area and the same extension keys. -/
structure SameAccess (a b : UserAccess) : Prop where
  levels : ∀ area, a.levels.get area = b.levels.get area
  ext : a.ext.Perm b.ext

/-- The level an account has in an area on a server. -/
def levelOn (user : AccessSubject) (area : AccessArea) (server : ServerId) : Option AccessLevel :=
  if reachesServer user server then
    if user.isAdmin then some .manage else user.access.levels.get area
  else none

/-- The account with the access its roles give now. -/
def AccessTables.current (t : AccessTables) (user : User) : User :=
  t.deserialize { user with }

/-! ## Levels and keys -/

section Levels

variable {t : AccessTables} {row : UserRow} {user : User} {roles : List Role} {ids : List RoleId}

theorem level_ext {a b : Option AccessLevel}
    (h : ∀ needed, levelAtLeast a needed = true ↔ levelAtLeast b needed = true) : a = b := by
  have h_read := h .read
  have h_write := h .write
  have h_manage := h .manage
  revert h_read h_write h_manage
  rcases a with _ | _ | _ | _ <;> rcases b with _ | _ | _ | _ <;> decide

/-- Every resolved role is the role of one of the ids. -/
theorem mem_of_resolve (h : t.resolve ids = .ok roles) {role : Role} (h_role : role ∈ roles) :
    ∃ stored ∈ t.roles, stored.id ∈ ids ∧ role = AccessTables.deserializeRole stored := by
  rw [AccessTables.resolve] at h
  obtain ⟨id, h_id, h_find⟩ := mem_of_mapM_ok h h_role
  split at h_find
  · rename_i h_some
    rw [Except.ok.inj h_find] at h_some
    obtain ⟨stored, h_stored, rfl, h_eq⟩ := findRoleById_mem h_some
    exact ⟨stored, h_stored, mem_unique.mp h_id, h_eq⟩
  · cases h_find

/-- What the policy decided on, over the roles themselves. -/
theorem levelAtLeast_effectiveAccess (h_wf : t.WF) (h : t.resolve user.roles = .ok roles)
    (area : AccessArea) (needed : AccessLevel) :
    levelAtLeast ((effectiveAccess roles user.grants user.extPermissions).levels.get area) needed =
        true ↔
      levelAtLeast (user.grants.get area) needed = true ∨
        ∃ role ∈ t.roles, role.id ∈ user.roles ∧
          levelAtLeast ((levels role.grants).get area) needed = true := by
  simp only [effectiveAccess, levelAtLeast_mergeAccess, List.mem_append, List.mem_map,
    List.mem_singleton]
  constructor
  · rintro ⟨map, ⟨role, h_role, rfl⟩ | rfl, h_level⟩
    · obtain ⟨stored, h_stored, h_id, rfl⟩ := mem_of_resolve h h_role
      exact .inr ⟨stored, h_stored, h_id, h_level⟩
    · exact .inl h_level
  · rintro (h_level | ⟨role, h_role, h_id, h_level⟩)
    · exact ⟨user.grants, .inr rfl, h_level⟩
    · exact ⟨levels role.grants, .inl ⟨_, resolve_mem h_wf h h_role h_id, rfl⟩, h_level⟩

theorem mem_effectiveAccess_ext (h_wf : t.WF) (h : t.resolve user.roles = .ok roles) (key : String) :
    key ∈ (effectiveAccess roles user.grants user.extPermissions).ext ↔
      key ∈ user.extPermissions ∨ ∃ role ∈ t.roles, role.id ∈ user.roles ∧ key ∈ role.ext := by
  simp only [effectiveAccess, mem_unique, List.mem_append, List.mem_flatMap]
  constructor
  · rintro (⟨role, h_role, h_key⟩ | h_key)
    · obtain ⟨stored, h_stored, h_id, rfl⟩ := mem_of_resolve h h_role
      exact .inr ⟨stored, h_stored, h_id, h_key⟩
    · exact .inl h_key
  · rintro (h_key | ⟨role, h_role, h_id, h_key⟩)
    · exact .inr h_key
    · exact .inl ⟨_, resolve_mem h_wf h h_role h_id, h_key⟩

theorem mem_deserialize_ext (t : AccessTables) (row : UserRow) (key : String) :
    key ∈ (t.deserialize row).access.ext ↔
      key ∈ row.extPermissions ∨ ∃ role ∈ t.roles, role.id ∈ row.roles ∧ key ∈ role.ext := by
  simp only [AccessTables.deserialize, AccessTables.roleExt, mem_unique, List.mem_append,
    List.mem_flatMap, List.mem_filter, beq_iff_eq]
  refine or_congr Iff.rfl ⟨?_, ?_⟩
  · rintro ⟨id, h_id, role, ⟨h_role, rfl⟩, h_key⟩
    exact ⟨role, h_role, h_id, h_key⟩
  · rintro ⟨role, h_role, h_id, h_key⟩
    exact ⟨role.id, h_id, role, ⟨h_role, rfl⟩, h_key⟩

theorem get_levels (h : isAccessMap user.grants = true) : levels user.grants = user.grants := by
  have h_entries : (levels user.grants).entries = user.grants.entries :=
    List.filter_eq_self.mpr (List.all_eq_true.mp h)
  cases h_map : user.grants with
  | mk entries nodup =>
    rw [h_map] at h_entries
    simp only [levels, JsObject.filter] at h_entries ⊢
    congr

end Levels

/-! ## Access of a row -/

section Rows

variable {t t' : AccessTables} {row : UserRow} {user : User} {roles : List Role}

/-- A row with the account's roles, levels and keys gives the access decided on. -/
theorem sameAccess_row (h_wf : t.WF) (h : t.resolve user.roles = .ok roles)
    (h_roles : t'.roles = t.roles) (h_grants : levels row.grants = user.grants)
    (h_members : ∀ role ∈ t.roles, role.id ∈ row.roles ↔ role.id ∈ user.roles)
    (h_ext : ∀ key, key ∈ row.extPermissions ↔ key ∈ user.extPermissions) :
    SameAccess (t'.deserialize row).access
      (effectiveAccess roles user.grants user.extPermissions) := by
  have h_same : ∀ P : Role → Prop, (∃ role ∈ t.roles, role.id ∈ row.roles ∧ P role) ↔
      ∃ role ∈ t.roles, role.id ∈ user.roles ∧ P role := by
    intro P
    refine exists_congr fun role => and_congr_right fun h_role => ?_
    rw [h_members role h_role]
  refine ⟨fun area => level_ext fun needed => ?_, ?_⟩
  · rw [levelAtLeast_deserialize, levelAtLeast_effectiveAccess h_wf h, h_roles, h_grants, h_same]
  · refine (List.perm_ext_iff_of_nodup (nodup_unique _) (nodup_unique _)).mpr fun key => ?_
    show key ∈ (t'.deserialize row).access.ext ↔
      key ∈ (effectiveAccess roles user.grants user.extPermissions).ext
    rw [mem_deserialize_ext, mem_effectiveAccess_ext h_wf h, h_roles, h_ext, h_same]

theorem sameAccess_userRow (h_wf : t.WF) (h : t.resolve user.roles = .ok roles)
    (h_roles : t'.roles = t.roles) (h_grants : isAccessMap user.grants = true) :
    SameAccess (t'.deserialize (t.userRow user)).access
      (effectiveAccess roles user.grants user.extPermissions) := by
  refine sameAccess_row h_wf h h_roles ?_ (fun role h_role => ?_) fun key => mem_unique
  · show levels (levels user.grants) = user.grants
    rw [levels_levels, get_levels h_grants]
  · show role.id ∈ unique (user.roles.filter fun id => t.roles.any (·.id == id)) ↔ _
    rw [mem_unique, List.mem_filter]
    refine ⟨fun h_in => h_in.1, fun h_in => ⟨h_in, List.any_eq_true.mpr ⟨role, h_role, ?_⟩⟩⟩
    exact beq_self_eq_true role.id

theorem sameAccess_current (h_wf : t.WF) (h : t.resolve user.roles = .ok roles)
    (h_grants : isAccessMap user.grants = true) :
    SameAccess (t.current user).access
      (effectiveAccess roles user.grants user.extPermissions) :=
  sameAccess_row h_wf h rfl (get_levels h_grants) (fun _ _ => Iff.rfl) fun _ => Iff.rfl

theorem levelOn_congr {a b : AccessSubject} (h_admin : a.isAdmin = b.isAdmin)
    (h_restrict : ∀ server, reachesServer a server = reachesServer b server)
    (h_levels : ∀ area, a.access.levels.get area = b.access.levels.get area) (area : AccessArea)
    (server : ServerId) : levelOn a area server = levelOn b area server := by
  rw [levelOn, levelOn, h_admin, h_restrict, h_levels]

/-! ## What a change is told by -/

theorem mem_iff_of_sameSet {a b : List String} (h_a : a.Nodup) (h : sameSet a b = true)
    (x : String) : x ∈ a ↔ x ∈ b := by
  rw [sameSet, Bool.and_eq_true, beq_iff_eq, List.all_eq_true] at h
  have h_sub : a ⊆ b := fun y h_y => List.contains_iff_mem.mp (h.2 y h_y)
  -- without repetitions in `a` the two of one length hold the same
  have h_perm := (h_a.subperm h_sub).perm_of_length_le (Nat.le_of_eq h.1.symm)
  exact h_perm.mem_iff

theorem get_eq_of_sameGrants {a b : AccessMap} (h : sameGrants a b = true) (area : AccessArea) :
    a.get area = b.get area := by
  rw [sameGrants, List.all_eq_true] at h
  by_cases h_area : area ∈ unique (a.entries.map Prod.fst ++ b.entries.map Prod.fst)
  · exact beq_iff_eq.mp (h area h_area)
  · have h_none : ∀ m : AccessMap, area ∉ m.entries.map Prod.fst → m.get area = none := by
      intro m h_m
      by_contra h_some
      obtain ⟨level, h_level⟩ := Option.ne_none_iff_exists'.mp h_some
      exact h_m (List.mem_map.mpr ⟨_, (m.get_eq_some_iff area level).mp h_level, rfl⟩)
    rw [mem_unique, List.mem_append, not_or] at h_area
    rw [h_none a h_area.1, h_none b h_area.2]

theorem get_levels_congr {a b : AccessMap} (h : ∀ area, a.get area = b.get area)
    (area : AccessArea) : (levels a).get area = (levels b).get area := by
  ext level
  show (a.filter _).get area = some level ↔ (b.filter _).get area = some level
  rw [JsObject.get_filter_eq_some_iff, JsObject.get_filter_eq_some_iff, h]

/-- Two accounts that are told to be the same have the same level everywhere. -/
theorem levelOn_of_unchanged {before after : User} (h_roles : before.roles.Nodup)
    (h_servers : before.serversRestrict.allowed.Nodup) (h : accessChanged before after = false)
    (t : AccessTables) (area : AccessArea) (server : ServerId) :
    levelOn (t.current before).toAccessSubject area server =
      levelOn (t.current after).toAccessSubject area server := by
  simp only [accessChanged, Bool.or_eq_false_iff, bne_eq_false_iff_eq, Bool.not_eq_false'] at h
  obtain ⟨⟨⟨⟨h_admin, h_role_set⟩, h_grants⟩, -⟩, h_restrict⟩ := h
  simp only [sameRestrict, Bool.and_eq_true, beq_iff_eq] at h_restrict
  obtain ⟨⟨h_enabled, h_len⟩, h_all⟩ := h_restrict
  have h_allowed : sameSet before.serversRestrict.allowed after.serversRestrict.allowed = true := by
    rw [sameSet, Bool.and_eq_true, beq_iff_eq]
    exact ⟨h_len, h_all⟩
  have h_admin' : (t.current before).isAdmin = (t.current after).isAdmin := h_admin
  refine levelOn_congr h_admin' (fun server => ?_) (fun area => level_ext fun needed => ?_) area
    server
  · show (if before.isAdmin || !before.serversRestrict.enabled then true
        else before.serversRestrict.allowed.contains server) =
      (if after.isAdmin || !after.serversRestrict.enabled then true
        else after.serversRestrict.allowed.contains server)
    have h_server : before.serversRestrict.allowed.contains server =
        after.serversRestrict.allowed.contains server := by
      rw [Bool.eq_iff_iff, List.contains_iff_mem, List.contains_iff_mem]
      exact mem_iff_of_sameSet h_servers h_allowed server
    rw [h_admin, h_enabled, h_server]
  · rw [AccessTables.current, AccessTables.current, levelAtLeast_deserialize,
      levelAtLeast_deserialize]
    refine or_congr ?_ (exists_congr fun role => and_congr_right fun _ => ?_)
    · rw [get_levels_congr (get_eq_of_sameGrants h_grants)]
    · rw [mem_iff_of_sameSet h_roles h_role_set]

end Rows

/-! ## What is read back -/

section ReadBack

variable {s s' : FullAccounts} {t t' : AccessTables} {account : FullAccount} {user : User}

theorem findById_updateUser (h : t.updateUser user = .ok t')
    (h_some : (t.findById user.id).isSome) :
    t'.findById user.id = some (t'.deserialize (t.userRow user)) := by
  have h_t' := updateUser_eq_ok h
  obtain ⟨stored, h_stored⟩ := Option.isSome_iff_exists.mp h_some
  obtain ⟨row, h_row, -⟩ := Option.map_eq_some_iff.mp h_stored
  have h_id : row.id = user.id := by simpa using List.find?_some h_row
  have h_ids : ((fun u : UserRow => u.id == user.id) ∘ fun u : UserRow =>
      if u.id = user.id then t.userRow user else u) = fun u => u.id == user.id := by
    funext u
    simp only [Function.comp]
    split
    · rename_i h_u
      rw [h_u]
      rfl
    · rfl
  have h_find : t'.users.find? (fun u => u.id == user.id) = some (t.userRow user) := by
    rw [h_t']
    show (t.users.map fun u => if u.id = user.id then t.userRow user else u).find? _ = _
    rw [List.find?_map, h_ids, h_row, Option.map_some, if_pos h_id]
  rw [AccessTables.findById, h_find, Option.map_some]

theorem findById_createUser (h : t.createUser user = .ok t') :
    t'.findById user.id = some (t'.deserialize (t.userRow user)) := by
  obtain ⟨h_new, rfl⟩ := createUser_eq_ok h
  have h_none : t.users.find? (fun u => u.id == user.id) = none := by
    rw [List.find?_eq_none]
    exact fun u h_u h_eq => h_new u h_u (beq_iff_eq.mp h_eq)
  have h_row : [t.userRow user].find? (fun u => u.id == user.id) = some (t.userRow user) :=
    List.find?_cons_of_pos (beq_self_eq_true user.id)
  have h_find : (t.users ++ [t.userRow user]).find? (fun u => u.id == user.id) =
      some (t.userRow user) := by
    rw [List.find?_append, h_none, Option.none_or, h_row]
  rw [AccessTables.findById, h_find, Option.map_some]

/-- An account with its two-factor columns as a row leaves them. -/
def Account.Consistent (account : Account) : Prop :=
  account.totpEnabled = (account.totpSecret.getD "" != "")

theorem consistent_deserialize (s : Accounts) (user : User) : (s.deserialize user).Consistent := rfl

/-- A row of the tables, its columns as they were written. -/
theorem sameAccount_stored (h_user : account.toAccount.Consistent)
    (h_find : s'.accounts.tables.findById account.id =
      some (s'.accounts.tables.deserialize (s.accounts.tables.userRow account.toUser)))
    (h_twofa : s'.accounts.twofa account.id = account.columns)
    (h_panel : s'.panel account.id = account.panel) :
    ∃ read, s'.findById account.id = some read ∧ SameAccount s.accounts.tables account read ∧
      read.access = (s'.accounts.tables.deserialize
        (s.accounts.tables.userRow account.toUser)).access := by
  refine ⟨s'.deserialize (s'.accounts.deserialize
    (s'.accounts.tables.deserialize (s.accounts.tables.userRow account.toUser))), ?_, ?_, ?_⟩
  · rw [FullAccounts.findById, Accounts.findById, h_find]
    rfl
  · have h_secret : (s'.accounts.twofa account.id).totpSecret =
        if account.totpEnabled then account.totpSecret else none := by
      rw [h_twofa]
      rfl
    refine ⟨rfl, rfl, rfl, rfl, rfl, levels_levels account.grants, rfl, rfl, rfl, ?_, h_secret, ?_,
      ?_, h_panel⟩
    · show ((s'.accounts.twofa account.id).totpSecret.getD "" != "") = account.totpEnabled
      rw [h_secret]
      split
      · rename_i h_enabled
        exact h_user.symm
      · rename_i h_disabled
        rw [Bool.not_eq_true] at h_disabled
        rw [h_disabled]
        rfl
    · show (s'.accounts.twofa account.id).telegram2faEnabled = account.telegram2faEnabled
      rw [h_twofa]
      rfl
    · show (s'.accounts.twofa account.id).twofaPrimary = account.twofaPrimary
      rw [h_twofa]
      rfl
  · rfl

theorem update_eq_ok_full (h : s.update account = .ok s') :
    ∃ accounts, s.accounts.update account.toAccount = .ok accounts ∧
      s' = { accounts := accounts, panel := Function.update s.panel account.id account.panel } := by
  rw [FullAccounts.update, bind_eq_ok] at h
  obtain ⟨accounts, h_accounts, h_eq⟩ := h
  exact ⟨accounts, h_accounts, (Except.ok.inj h_eq).symm⟩

theorem updated_stored (h_user : account.toAccount.Consistent) (h : s.update account = .ok s') :
    s'.accounts.tables.roles = s.accounts.tables.roles ∧
      ∃ read, s'.findById account.id = some read ∧ SameAccount s.accounts.tables account read ∧
        read.access = (s'.accounts.tables.deserialize
          (s.accounts.tables.userRow account.toUser)).access := by
  obtain ⟨accounts, h_accounts, rfl⟩ := update_eq_ok_full h
  obtain ⟨tables, h_some, h_tables, rfl⟩ := update_eq_ok.mp h_accounts
  refine ⟨by rw [updateUser_eq_ok h_tables], sameAccount_stored h_user ?_ ?_ ?_⟩
  · exact findById_updateUser h_tables h_some
  · exact Function.update_self account.id account.columns s.accounts.twofa
  · exact Function.update_self account.id account.panel s.panel

theorem created_stored (h_user : account.toAccount.Consistent) (h : s.create account = .ok s') :
    s'.accounts.tables.roles = s.accounts.tables.roles ∧
      ∃ read, s'.findById account.id = some read ∧ SameAccount s.accounts.tables account read ∧
        read.access = (s'.accounts.tables.deserialize
          (s.accounts.tables.userRow account.toUser)).access := by
  rw [FullAccounts.create, bind_eq_ok] at h
  obtain ⟨tables, h_tables, h_eq⟩ := h
  obtain rfl := Except.ok.inj h_eq
  rw [runSql_eq_ok] at h_tables
  refine ⟨by rw [(createUser_eq_ok h_tables).2], sameAccount_stored h_user ?_ ?_ ?_⟩
  · exact findById_createUser h_tables
  · exact Function.update_self account.id account.columns s.accounts.twofa
  · exact Function.update_self account.id account.panel s.panel

end ReadBack

/-! ## The two requests -/

section Requests

variable {s s' loaded : FullAccounts} {actor : User} {user : FullAccount} {dto : UpdateAccountDto}
  {body : CreateAccountDto} {username newId hash : String}

/-- On the tables the two requests are those of `AccessTables`. -/
theorem createAccount_tables (h : s.createAccount actor body newId hash = .ok s') :
    s.accounts.tables.createAccount actor body newId hash = .ok (s'.accounts.tables, []) := by
  simp only [FullAccounts.createAccount, FullAccounts.create, bind_eq_ok] at h
  obtain ⟨roles, h_roles, u, h_grant, v, h_free, tables, h_tables, h_eq⟩ := h
  obtain rfl := Except.ok.inj h_eq
  simp only [AccessTables.createAccount, bind_eq_ok]
  exact ⟨roles, h_roles, u, h_grant, v, h_free, tables, h_tables, rfl⟩

theorem updateAccount_accounts (h : s.updateAccount actor user dto hash = .ok s') :
    s.accounts.storeUpdate actor user.toAccount dto hash = .ok s'.accounts := by
  simp only [FullAccounts.updateAccount, bind_eq_ok] at h
  obtain ⟨roles, h_roles, u, h_grant, h_update⟩ := h
  obtain ⟨accounts, h_accounts, rfl⟩ := update_eq_ok_full h_update
  exact storeUpdate_eq_ok.mpr ⟨roles, h_roles, enforce_eq_ok.mp h_grant, h_accounts⟩

/-- Every write leaves rows with their keys. -/
theorem keys_written {t t' : AccessTables} (h_keys : ∀ row ∈ t.users, row.Keys) {account : User}
    (h : t.updateUser account = .ok t' ∨ t.createUser account = .ok t') :
    ∀ row ∈ t'.users, row.Keys := by
  have h_new : (t.userRow account).Keys := ⟨nodup_unique _, nodup_unique _, nodup_unique _⟩
  intro row h_row
  obtain h | h := h
  · rw [updateUser_eq_ok h] at h_row
    obtain ⟨old, h_old, rfl⟩ := List.mem_map.mp h_row
    split
    · exact h_new
    · exact h_keys old h_old
  · obtain ⟨-, -, rfl⟩ := createUser_eq_ok h
    obtain h_row | h_row := List.mem_append.mp h_row
    · exact h_keys row h_row
    · rw [List.mem_singleton.mp h_row]
      exact h_new

theorem loaded_row (h : loaded.findByUsername username = some user) :
    ∃ row ∈ loaded.accounts.tables.users, loaded.accounts.tables.deserialize row = user.toUser ∧
      user.toAccount.Consistent := by
  obtain ⟨account, h_account, rfl⟩ := Option.map_eq_some_iff.mp h
  obtain ⟨stored, h_stored, rfl⟩ := Option.map_eq_some_iff.mp h_account
  obtain ⟨row, h_row, rfl⟩ := findByUsername_mem h_stored
  exact ⟨row, h_row, rfl, consistent_deserialize loaded.accounts _⟩

theorem isAccessMap_levels (raw : AccessMap) : isAccessMap (levels raw) = true := by
  rw [isAccessMap, List.all_eq_true]
  exact fun e h_e => (List.mem_filter.mp h_e).2

/-- The levels an update stores were read or checked before. -/
theorem isAccessMap_merged (h : loaded.findByUsername username = some user)
    (h_dto : ∀ grants, dto.grants = some grants → isAccessMap grants = true) :
    isAccessMap (AccessTables.merged actor user.toUser dto hash).grants = true := by
  obtain ⟨row, -, h_row, -⟩ := loaded_row h
  show isAccessMap (dto.grants.getD user.grants) = true
  cases h_grants : dto.grants with
  | none =>
    rw [Option.getD_none, ← h_row]
    exact isAccessMap_levels row.grants
  | some grants => exact h_dto grants h_grants

theorem current_deserialize (t : AccessTables) (row : UserRow) :
    t.current (t.deserialize row) = t.deserialize row := by
  rw [AccessTables.current, AccessTables.deserialize, AccessTables.deserialize]
  simp only [levels_levels]

end Requests

/-- The chat team, its accounts whole. -/
def chatPanel : FullAccounts where
  accounts := { tables := chatTeam, twofa := fun _ => ⟨some "s3cret", false, some .totp⟩ }
  panel := fun _ => ⟨true, none, none, none⟩

/-- The manager takes the chat role and a list of servers, one of which does not exist. -/
def joinChat : UpdateAccountDto :=
  { roles := some ["chat", "chat"], serversRestrict := some ⟨true, ["s", "gone", "s"]⟩ }

end Kubek.Access
