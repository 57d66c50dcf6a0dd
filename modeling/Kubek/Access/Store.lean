/-
  Kubek.Access.Store

  Accounts and roles as the repositories keep them (users.repository.ts,
  roles.repository.ts and the tables of migrations 003 and 019).

  A row of `users` is kept together with its rows of `user_roles`, `user_grants`,
  `user_permissions` and `user_server_access` in the order they were inserted, a row of
  `roles` with its grants and permissions. `ON DELETE CASCADE` on a role takes it out
  of every account. What an account may do is computed on read.
-/

import Kubek.Access.Policy

namespace Kubek.Access

open JsMap

/-! ## Tables -/

structure UserRow where
  id : String
  username : String
  password : String
  isAdmin : Bool
  roles : List RoleId
  grants : AccessMap
  extPermissions : List String
  serversRestrict : UserServersRestrict

structure AccessTables where
  users : List UserRow
  roles : List Role
  servers : List ServerId

/-- `NOCASE` of SQLite folds the ASCII letters only. -/
def sameNoCase (a b : String) : Bool :=
  a.toList.map Char.toLower == b.toList.map Char.toLower

/-- Keys of the tables, and no role in an account that does not exist. -/
structure AccessTables.WF (t : AccessTables) : Prop where
  userIds : (t.users.map (·.id)).Nodup
  roleIds : (t.roles.map (·.id)).Nodup
  userRoles : ∀ u ∈ t.users, ∀ id ∈ u.roles, id ∈ t.roles.map (·.id)

/-- What a statement can fail on. -/
inductive SqliteError
  | uniqueConstraint (column : String)
  deriving DecidableEq, Repr

namespace AccessTables

variable (t : AccessTables)

/-! ## Roles repository -/

/-- Levels this build does not know are dropped on read. -/
def deserializeRole (row : Role) : Role := { row with grants := levels row.grants }

def findRoleById (id : RoleId) : Option Role :=
  (t.roles.find? (·.id == id)).map deserializeRole

def findRoleByName (name : String) : Option Role :=
  (t.roles.find? fun r => sameNoCase r.name name).map deserializeRole

/-- `memberIds`. -/
def memberIds (roleId : RoleId) : List String :=
  (t.users.filter (·.roles.contains roleId)).map (·.id)

/-- The row `writeAccess` of the roles repository leaves. -/
def roleRow (role : Role) : Role :=
  { role with grants := levels role.grants, ext := unique role.ext }

def createRole (role : Role) : Except SqliteError AccessTables :=
  if t.roles.any (·.id == role.id) then .error (.uniqueConstraint "roles.id")
  else if t.roles.any (sameNoCase ·.name role.name) then
    .error (.uniqueConstraint "roles.name")
  else .ok { t with roles := t.roles ++ [roleRow role] }

/-- `update`: name, description and access; the built-in key stays. -/
def updateRole (role : Role) : Except SqliteError AccessTables :=
  if t.roles.any fun r => r.id != role.id && sameNoCase r.name role.name then
    .error (.uniqueConstraint "roles.name")
  else
    .ok { t with
      roles := t.roles.map fun r =>
        if r.id = role.id then { roleRow role with id := r.id, builtinKey := r.builtinKey } else r }

/-- `delete`, with the cascade on `user_roles`. -/
def deleteRole (id : RoleId) : AccessTables :=
  { t with
    users := t.users.map fun u => { u with roles := u.roles.filter (· ≠ id) }
    roles := t.roles.filter (·.id ≠ id) }

/-! ## Users repository -/

/-- The grants of an account's roles, one map for each row of the join. -/
def roleGrants (roleIds : List RoleId) : List AccessMap :=
  roleIds.flatMap fun id =>
    (t.roles.filter (·.id == id)).flatMap fun r =>
      r.grants.entries.map fun e => levels (JsObject.empty.set e.1 e.2)

def roleExt (roleIds : List RoleId) : List String :=
  unique (roleIds.flatMap fun id => (t.roles.filter (·.id == id)).flatMap (·.ext))

/-- `deserialize`: effective access is computed on read. -/
def deserialize (row : UserRow) : User where
  id := row.id
  username := row.username
  password := row.password
  isAdmin := row.isAdmin
  roles := row.roles
  grants := levels row.grants
  extPermissions := row.extPermissions
  access :=
    { levels := mergeAccess [levels row.grants, mergeAccess (t.roleGrants row.roles)]
      ext := unique (row.extPermissions ++ t.roleExt row.roles) }
  serversRestrict := row.serversRestrict

def findById (id : String) : Option User := (t.users.find? (·.id == id)).map t.deserialize

def findByUsername (username : String) : Option User :=
  (t.users.find? (·.username == username)).map t.deserialize

/-- The row `writeAccess` of the users repository leaves: unknown roles and servers are
    skipped, repetitions ignored. -/
def userRow (user : User) : UserRow where
  id := user.id
  username := user.username
  password := user.password
  isAdmin := user.isAdmin
  roles := unique (user.roles.filter fun id => t.roles.any (·.id == id))
  grants := levels user.grants
  extPermissions := unique user.extPermissions
  serversRestrict :=
    { enabled := user.serversRestrict.enabled
      allowed := unique (user.serversRestrict.allowed.filter t.servers.contains) }

def createUser (user : User) : Except SqliteError AccessTables :=
  if t.users.any (·.id == user.id) then .error (.uniqueConstraint "users.id")
  else if t.users.any (·.username == user.username) then
    .error (.uniqueConstraint "users.username")
  else .ok { t with users := t.users ++ [t.userRow user] }

def updateUser (user : User) : Except SqliteError AccessTables :=
  if t.users.any fun u => u.id != user.id && u.username == user.username then
    .error (.uniqueConstraint "users.username")
  else .ok { t with users := t.users.map fun u => if u.id = user.id then t.userRow user else u }

/-! ## What an account holds -/

/-- The account holds the level in the area. -/
def holdsLevel (id : String) (area : AccessArea) (level : AccessLevel) : Prop :=
  ∃ u, t.findById id = some u ∧ can u.toAccessSubject area level = true

/-- The account holds the level in the area on the server. -/
def holds (id : String) (area : AccessArea) (level : AccessLevel) (server : ServerId) : Prop :=
  ∃ u, t.findById id = some u ∧ canOnServer u.toAccessSubject area level server = true

end AccessTables

/-! ## Lookups -/

section Lookups

variable {t : AccessTables}

theorem findById_eq_some_iff (h : t.WF) {id : String} {u : User} :
    t.findById id = some u ↔ ∃ row ∈ t.users, row.id = id ∧ t.deserialize row = u := by
  constructor
  · intro h_find
    obtain ⟨row, h_row, rfl⟩ := Option.map_eq_some_iff.mp h_find
    exact ⟨row, List.mem_of_find?_eq_some h_row, by simpa using List.find?_some h_row, rfl⟩
  · rintro ⟨row, h_mem, rfl, rfl⟩
    cases h_row : t.users.find? (·.id == row.id) with
    | none =>
      have h_not := List.find?_eq_none.mp h_row row h_mem
      simp at h_not
    | some other =>
      have h_id : other.id = row.id := by simpa using List.find?_some h_row
      have h_eq : other = row :=
        List.inj_on_of_nodup_map h.userIds (List.mem_of_find?_eq_some h_row) h_mem h_id
      simp [AccessTables.findById, h_row, h_eq]

theorem findByUsername_mem {username : String} {u : User}
    (h : t.findByUsername username = some u) : ∃ row ∈ t.users, t.deserialize row = u := by
  obtain ⟨row, h_row, rfl⟩ := Option.map_eq_some_iff.mp h
  exact ⟨row, List.mem_of_find?_eq_some h_row, rfl⟩

theorem findRoleById_mem {id : RoleId} {role : Role} (h : t.findRoleById id = some role) :
    ∃ row ∈ t.roles, row.id = id ∧ role = AccessTables.deserializeRole row := by
  obtain ⟨row, h_row, rfl⟩ := Option.map_eq_some_iff.mp h
  exact ⟨row, List.mem_of_find?_eq_some h_row, by simpa using List.find?_some h_row, rfl⟩

/-- Known levels of a map, as its entries. -/
theorem levelAtLeast_levels_iff (raw : AccessMap) (area : AccessArea) (needed : AccessLevel) :
    levelAtLeast ((levels raw).get area) needed = true ↔
      ∃ level, (area, level) ∈ raw.entries ∧ isAreaLevel area level = true ∧
        levelAtLeast (some level) needed = true := by
  rw [levelAtLeast_get_iff]
  refine exists_congr fun level => ?_
  simp only [levels, JsObject.filter, List.mem_filter, and_assoc]

/-- The effective level of a stored account: a personal grant or a grant of one of its
    roles. -/
theorem levelAtLeast_deserialize (row : UserRow) (area : AccessArea) (needed : AccessLevel) :
    levelAtLeast ((t.deserialize row).access.levels.get area) needed = true ↔
      levelAtLeast ((levels row.grants).get area) needed = true ∨
        ∃ role ∈ t.roles, role.id ∈ row.roles ∧
          levelAtLeast ((levels role.grants).get area) needed = true := by
  have h_roles : levelAtLeast ((mergeAccess (t.roleGrants row.roles)).get area) needed = true ↔
      ∃ role ∈ t.roles, role.id ∈ row.roles ∧
        levelAtLeast ((levels role.grants).get area) needed = true := by
    rw [levelAtLeast_mergeAccess]
    constructor
    · rintro ⟨map, h_map, h_level⟩
      simp only [AccessTables.roleGrants, List.mem_flatMap, List.mem_filter, List.mem_map,
        beq_iff_eq] at h_map
      obtain ⟨id, h_id, role, ⟨h_role, rfl⟩, ⟨a, l⟩, h_entry, rfl⟩ := h_map
      obtain ⟨level, h_mem, h_area, h_needed⟩ := (levelAtLeast_levels_iff _ _ _).mp h_level
      have h_pair : area = a ∧ level = l := by
        simpa [JsObject.set, JsObject.empty, setEntries] using h_mem
      obtain ⟨rfl, rfl⟩ := h_pair
      exact ⟨role, h_role, h_id,
        (levelAtLeast_levels_iff _ _ _).mpr ⟨level, h_entry, h_area, h_needed⟩⟩
    · rintro ⟨role, h_role, h_id, h_level⟩
      obtain ⟨level, h_mem, h_area, h_needed⟩ := (levelAtLeast_levels_iff _ _ _).mp h_level
      refine ⟨levels (JsObject.empty.set area level), ?_,
        (levelAtLeast_levels_iff _ _ _).mpr ⟨level, ?_, h_area, h_needed⟩⟩
      · simp only [AccessTables.roleGrants, List.mem_flatMap, List.mem_filter, List.mem_map,
          beq_iff_eq]
        exact ⟨role.id, h_id, role, ⟨h_role, rfl⟩, (area, level), h_mem, rfl⟩
      · simp [JsObject.set, JsObject.empty, setEntries]
  simp only [AccessTables.deserialize, levelAtLeast_mergeAccess, List.mem_cons, List.not_mem_nil,
    or_false, exists_eq_or_imp, exists_eq_left, h_roles]

end Lookups

end Kubek.Access
