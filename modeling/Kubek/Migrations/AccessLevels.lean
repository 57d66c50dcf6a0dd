/-
  Kubek.Migrations.AccessLevels

  Flat permissions become levels per area (migration 019-access-levels.ts), and the old keys
  that levels still cover (shared/access/legacy.ts, extensions/ext-user.ts).

  An account is read after the migration as the repository reads it. The keys that every
  object has are no permissions here.
-/

import Kubek.Access.Store

namespace Kubek.Migrations.AccessLevels

open JsMap Access

/-- The grants of one permission or role, in the order they are written down. -/
abbrev Grants := List (AccessArea × AccessLevel)

/-! ## Old keys -/

/-- `LEGACY`, the frozen copy of the migration. -/
def LEGACY : List (String × Grants) :=
  [("servers_view", [(.console, .read), (.power, .read), (.players, .read), (.networks, .read)]),
   ("servers_control", [(.console, .write), (.power, .manage), (.players, .write)]),
   ("servers_configure",
     [(.settings, .manage), (.players, .manage), (.networks, .manage), (.servers, .manage)]),
   ("servers_create", [(.servers, .write)]),
   ("file_manager", [(.files, .manage)]),
   ("plugins_mgr", [(.content, .manage)]),
   ("backups", [(.backups, .manage), (.storages, .read)]),
   ("scheduler_mgr", [(.scheduler, .manage)]),
   ("java_mgr", [(.java, .manage)]),
   ("system_monitoring", [(.monitoring, .read)]),
   ("audit_log", [(.audit, .read)]),
   ("ai_assistant", [(.assistant, .read)]),
   ("accounts_mgr", [(.accounts, .write)]),
   ("kubek_settings",
     [(.panel, .manage), (.integrations, .manage), (.storages, .manage), (.audit, .manage),
      (.assistant, .manage)])]

/-- `LEGACY_PERMISSION_ACCESS`. -/
def LEGACY_PERMISSION_ACCESS : List (String × Grants) :=
  [("servers_view", [(.console, .read), (.power, .read), (.players, .read), (.networks, .read)]),
   ("servers_control", [(.console, .write), (.power, .manage), (.players, .write)]),
   ("servers_configure",
     [(.settings, .manage), (.players, .manage), (.networks, .manage), (.servers, .manage)]),
   ("servers_create", [(.servers, .write)]),
   ("file_manager", [(.files, .manage)]),
   ("plugins_mgr", [(.content, .manage)]),
   ("backups", [(.backups, .manage), (.storages, .read)]),
   ("scheduler_mgr", [(.scheduler, .manage)]),
   ("java_mgr", [(.java, .manage)]),
   ("system_monitoring", [(.monitoring, .read)]),
   ("audit_log", [(.audit, .read)]),
   ("ai_assistant", [(.assistant, .read)]),
   ("accounts_mgr", [(.accounts, .write)]),
   ("kubek_settings",
     [(.panel, .manage), (.integrations, .manage), (.storages, .manage), (.audit, .manage),
      (.assistant, .manage)])]

def isLegacyPermission (key : String) : Bool := LEGACY_PERMISSION_ACCESS.any (·.1 == key)

/-- `accessWithin`. -/
def accessWithin (a : Grants) (b : AccessMap) : Bool := a.all fun e => levelAtLeast (b.get e.1) e.2

/-- `legacyFromAccess`. -/
def legacyFromAccess (levels : AccessMap) : List String :=
  (LEGACY_PERMISSION_ACCESS.filter fun e => accessWithin e.2 levels).map (·.1)

/-- `extPermissionsOf`. -/
def extPermissionsOf (user : User) : List String :=
  (if user.isAdmin then LEGACY_PERMISSION_ACCESS.map (·.1) else legacyFromAccess user.access.levels)
    ++ user.access.ext

/-! ## Built-in roles -/

/-- `{ ...grants, ...more }`. -/
def spreadGrants (grants more : Grants) : Grants :=
  (more.foldl (fun m e => m.set e.1 e.2) (grants.foldl (fun m e => m.set e.1 e.2)
    (JsObject.empty : AccessMap))).entries

def VIEWER : Grants :=
  [(.console, .read), (.power, .read), (.settings, .read), (.content, .read), (.players, .read),
   (.backups, .read), (.scheduler, .read), (.networks, .read)]

def MODERATOR : Grants :=
  spreadGrants VIEWER [(.console, .write), (.power, .write), (.players, .manage)]

def OPERATOR : Grants :=
  spreadGrants MODERATOR
    [(.settings, .write), (.files, .write), (.content, .write), (.backups, .write),
     (.scheduler, .write)]

def SERVER_ADMIN : Grants :=
  [(.console, .write), (.power, .manage), (.settings, .manage), (.files, .manage),
   (.content, .manage), (.players, .manage), (.backups, .manage), (.scheduler, .manage),
   (.servers, .manage), (.networks, .manage), (.java, .write)]

def BUILTIN : List (String × String × Grants) :=
  [("viewer", "Viewer", VIEWER), ("moderator", "Moderator", MODERATOR),
   ("operator", "Operator", OPERATOR), ("server-admin", "Server admin", SERVER_ADMIN)]

/-! ## The migration -/

/-- A row of `users`, with its rows of `user_server_access`. -/
structure Account where
  id : String
  username : String
  password : String
  isAdmin : Bool
  serversRestrict : UserServersRestrict

/-- The tables before the migration. -/
structure V18 where
  users : List Account
  permissions : List (String × String)
  servers : List ServerId

/-- A row of `user_grants`. -/
structure UserGrant where
  userId : String
  area : AccessArea
  level : AccessLevel
  deriving DecidableEq

/-- The tables after it; no account has a role yet. -/
structure V19 where
  users : List Account
  roles : List Role
  userGrants : List UserGrant
  permissions : List (String × String)
  servers : List ServerId

/-- One entry of the inner loop. -/
def addEntry (grants : AccessMap) (e : AccessArea × AccessLevel) : AccessMap :=
  match grants.get e.1 with
  | none => grants.set e.1 e.2
  | some current => if current.rank < e.2.rank then grants.set e.1 e.2 else grants

/-- One row of `user_permissions`. -/
def addRow (perUser : JsObject String AccessMap) (row : String × String) :
    JsObject String AccessMap :=
  match LEGACY.lookup row.2 with
  | none => perUser
  | some mapped => perUser.set row.1 (mapped.foldl addEntry ((perUser.get row.1).getD .empty))

def perUser (rows : List (String × String)) : JsObject String AccessMap :=
  rows.foldl addRow .empty

/-- `INSERT INTO user_grants`, refused where the account has a row for the area. -/
def addUserGrant (table : List UserGrant) (row : UserGrant) : Option (List UserGrant) :=
  if table.any fun r => r.userId == row.userId && r.area == row.area then none
  else some (table ++ [row])

def builtinRole (role : String × String × Grants) : Role where
  id := "builtin:" ++ role.1
  name := role.2.1
  description := none
  builtinKey := some role.1
  grants := role.2.2.foldl (fun m e => m.set e.1 e.2) .empty
  ext := []

/-- `accessLevels`, with the check of its foreign keys. -/
def accessLevels (db : V18) : Option V19 := do
  let grants := (perUser db.permissions).entries.flatMap fun user =>
    user.2.entries.map fun e => ({ userId := user.1, area := e.1, level := e.2 } : UserGrant)
  let userGrants ← grants.foldlM addUserGrant []
  if userGrants.all fun row => db.users.any (·.id == row.userId) then
    some
      { users := db.users
        roles := BUILTIN.map builtinRole
        userGrants
        permissions := db.permissions.filter fun row => !(LEGACY.map (·.1)).contains row.2
        servers := db.servers }
  else none

/-! ## Reading the accounts -/

/-- `json_group_object(area, level)` of the account's grants. -/
def V19.grantsOf (db : V19) (id : String) : AccessMap :=
  (db.userGrants.filter (·.userId == id)).foldl (fun m row => m.set row.area row.level) .empty

/-- The keys of an account. -/
def keysOf (id : String) (permissions : List (String × String)) : List String :=
  (permissions.filter (·.1 == id)).map (·.2)

/-- What the repositories read. -/
def V19.tables (db : V19) : AccessTables where
  users := db.users.map fun u =>
    { id := u.id, username := u.username, password := u.password, isAdmin := u.isAdmin
      roles := [], grants := db.grantsOf u.id, extPermissions := keysOf u.id db.permissions
      serversRestrict := u.serversRestrict }
  roles := db.roles
  servers := db.servers

/-! ## What a key grants -/

/-- An old key grants a level of an area. -/
def Grant (key : String) (area : AccessArea) (level : AccessLevel) : Prop :=
  ∃ mapped, LEGACY.lookup key = some mapped ∧
    ∃ l, (area, l) ∈ mapped ∧ levelAtLeast (some l) level = true

/-- The keys that another combination of keys covers besides themselves. -/
def GAINED : List (String × List String) :=
  [("servers_view", ["servers_control", "servers_configure"]),
   ("servers_create", ["servers_configure"]),
   ("audit_log", ["kubek_settings"]),
   ("ai_assistant", ["kubek_settings"])]

/-- An account with the old keys has this one after the migration. -/
def Has (old : List String) (key : String) : Prop :=
  key ∈ old ∨ ∃ g ∈ GAINED, g.1 = key ∧ ∀ k ∈ g.2, k ∈ old

/-! ## Levels of an account -/

section Levels

variable {area : AccessArea} {level : AccessLevel} {key id : String}

theorem LEGACY_eq : LEGACY = LEGACY_PERMISSION_ACCESS := rfl

theorem levelAtLeast_addEntry (m : AccessMap) (e : AccessArea × AccessLevel) :
    levelAtLeast ((addEntry m e).get area) level = true ↔
      levelAtLeast (m.get area) level = true ∨
        (e.1 = area ∧ levelAtLeast (some e.2) level = true) := by
  rw [addEntry]
  cases h : m.get e.1 with
  | none =>
    dsimp only
    rw [JsObject.get_set]
    by_cases h_area : area = e.1
    · simp [h_area, h, levelAtLeast]
    · simp [h_area, Ne.symm h_area]
  | some current =>
    dsimp only
    split
    · rename_i h_less
      rw [JsObject.get_set]
      by_cases h_area : area = e.1
      · rw [if_pos h_area, h_area, h]
        simp only [levelAtLeast, decide_eq_true_eq, true_and]
        omega
      · simp [h_area, Ne.symm h_area]
    · rename_i h_less
      by_cases h_area : e.1 = area
      · rw [← h_area, h]
        simp only [levelAtLeast, decide_eq_true_eq, true_and]
        omega
      · simp [h_area]

theorem levelAtLeast_foldl_addEntry (mapped : Grants) (m : AccessMap) :
    levelAtLeast ((mapped.foldl addEntry m).get area) level = true ↔
      levelAtLeast (m.get area) level = true ∨
        ∃ l, (area, l) ∈ mapped ∧ levelAtLeast (some l) level = true := by
  induction mapped generalizing m with
  | nil => simp
  | cons e es ih =>
    rw [List.foldl_cons, ih, levelAtLeast_addEntry]
    constructor
    · rintro ((h | ⟨rfl, h⟩) | ⟨l, h_mem, h⟩)
      · exact .inl h
      · exact .inr ⟨e.2, List.mem_cons_self, h⟩
      · exact .inr ⟨l, List.mem_cons_of_mem _ h_mem, h⟩
    · rintro (h | ⟨l, h_mem, h⟩)
      · exact .inl (.inl h)
      · obtain rfl | h_mem := List.mem_cons.mp h_mem
        · exact .inl (.inr ⟨rfl, h⟩)
        · exact .inr ⟨l, h_mem, h⟩

theorem keysOf_cons (row : String × String) (rows : List (String × String)) :
    keysOf id (row :: rows) = (if row.1 = id then [row.2] else []) ++ keysOf id rows := by
  rw [keysOf, List.filter_cons, keysOf]
  by_cases h : row.1 = id <;> simp [h]

/-- The levels of an account are those of its keys, in whatever order they come. -/
theorem levelAtLeast_foldl_addRow (rows : List (String × String)) (m : JsObject String AccessMap) :
    levelAtLeast ((((rows.foldl addRow m).get id).getD .empty).get area) level = true ↔
      levelAtLeast (((m.get id).getD .empty).get area) level = true ∨
        ∃ key ∈ keysOf id rows, Grant key area level := by
  induction rows generalizing m with
  | nil => simp [keysOf]
  | cons row rows ih =>
    rw [List.foldl_cons, ih, keysOf_cons]
    have h_row : levelAtLeast ((((addRow m row).get id).getD .empty).get area) level = true ↔
        levelAtLeast (((m.get id).getD .empty).get area) level = true ∨
          (row.1 = id ∧ Grant row.2 area level) := by
      rw [addRow]
      cases h_legacy : LEGACY.lookup row.2 with
      | none => simp [Grant, h_legacy]
      | some mapped =>
        dsimp only
        rw [JsObject.get_set]
        by_cases h_id : id = row.1
        · rw [if_pos h_id, Option.getD_some, levelAtLeast_foldl_addEntry, h_id]
          simp [Grant, h_legacy]
        · rw [if_neg h_id]
          have h_ne : ¬ row.1 = id := fun h => h_id h.symm
          simp [h_ne]
    rw [h_row]
    by_cases h_id : row.1 = id <;> simp [h_id, or_assoc]

/-- A map all of whose levels exist in their areas. -/
def AllReal (m : AccessMap) : Prop := ∀ area level, m.get area = some level →
  isAreaLevel area level = true

theorem legacy_real {mapped : Grants} (h : LEGACY.lookup key = some mapped) :
    ∀ e ∈ mapped, isAreaLevel e.1 e.2 = true := by
  have h_all : (LEGACY.all fun entry => entry.2.all fun e => isAreaLevel e.1 e.2) = true := rfl
  have h_mem := mem_of_lookup_eq_some h
  exact List.all_eq_true.mp (List.all_eq_true.mp h_all _ h_mem)

theorem allReal_addEntry {m : AccessMap} (h : AllReal m) {e : AccessArea × AccessLevel}
    (h_e : isAreaLevel e.1 e.2 = true) : AllReal (addEntry m e) := by
  have h_set : AllReal (m.set e.1 e.2) := by
    intro area level h_get
    rw [JsObject.get_set] at h_get
    split at h_get
    · rename_i h_area
      rwa [h_area, ← Option.some.inj h_get]
    · exact h area level h_get
  rw [addEntry]
  split
  · exact h_set
  · split
    · exact h_set
    · exact h

theorem allReal_foldl_addEntry {mapped : Grants} (h_mapped : ∀ e ∈ mapped, isAreaLevel e.1 e.2 = true)
    {m : AccessMap} (h : AllReal m) : AllReal (mapped.foldl addEntry m) := by
  induction mapped generalizing m with
  | nil => exact h
  | cons e es ih =>
    exact ih (fun e' h_e' => h_mapped e' (List.mem_cons_of_mem _ h_e'))
      (allReal_addEntry h (h_mapped e List.mem_cons_self))

theorem allReal_perUser (rows : List (String × String)) {m : JsObject String AccessMap}
    (h : ∀ id, AllReal ((m.get id).getD .empty)) :
    ∀ id, AllReal (((rows.foldl addRow m).get id).getD .empty) := by
  induction rows generalizing m with
  | nil => exact h
  | cons row rows ih =>
    refine ih fun id => ?_
    rw [addRow]
    cases h_legacy : LEGACY.lookup row.2 with
    | none => exact h id
    | some mapped =>
      dsimp only
      rw [JsObject.get_set]
      split
      · exact allReal_foldl_addEntry (legacy_real h_legacy) (h row.1)
      · exact h id

/-- Nothing of such a map is dropped on read. -/
theorem levels_of_allReal {m : AccessMap} (h : AllReal m) : (levels m).get area = m.get area := by
  rw [Option.ext_iff]
  intro level
  rw [levels, JsObject.get_filter_eq_some_iff]
  exact ⟨fun h_get => h_get.1, fun h_get => ⟨h_get, h area level h_get⟩⟩

end Levels

/-! ## The rows of the new table -/

section Rows

variable {area : AccessArea} {level : AccessLevel} {id : String}

/-- The primary key. -/
def UserGrant.key (row : UserGrant) : String × AccessArea := (row.userId, row.area)

/-- Rows with different keys go in one after the other. -/
theorem foldlM_addUserGrant {table rows : List UserGrant}
    (h : ((table ++ rows).map UserGrant.key).Nodup) :
    rows.foldlM addUserGrant table = some (table ++ rows) := by
  induction rows generalizing table with
  | nil => rw [List.append_nil]; rfl
  | cons row rows ih =>
    have h_step : addUserGrant table row = some (table ++ [row]) := by
      have h_new : ∀ r ∈ table, UserGrant.key r ≠ UserGrant.key row := by
        intro r h_r h_eq
        rw [List.map_append, List.nodup_append] at h
        exact h.2.2 _ (List.mem_map_of_mem h_r) _ (List.mem_map_of_mem List.mem_cons_self) h_eq
      have h_any : (table.any fun r => r.userId == row.userId && r.area == row.area) = false := by
        rw [List.any_eq_false]
        intro r h_r h_same
        rw [Bool.and_eq_true, beq_iff_eq, beq_iff_eq] at h_same
        exact h_new r h_r (Prod.ext h_same.1 h_same.2)
      rw [addUserGrant, h_any]
      rfl
    rw [List.foldlM_cons, h_step]
    show rows.foldlM addUserGrant (table ++ [row]) = _
    rw [ih (by rw [List.append_assoc]; exact h), List.append_assoc]
    rfl

/-- The rows that the migration writes. -/
def grantRows (users : JsObject String AccessMap) : List UserGrant :=
  users.entries.flatMap fun user =>
    user.2.entries.map fun e => { userId := user.1, area := e.1, level := e.2 }

theorem mem_grantRows {users : JsObject String AccessMap} {row : UserGrant} :
    row ∈ grantRows users ↔
      ∃ m, users.get row.userId = some m ∧ m.get row.area = some row.level := by
  rw [grantRows, List.mem_flatMap]
  constructor
  · rintro ⟨⟨id, m⟩, h_user, h_row⟩
    obtain ⟨⟨a, l⟩, h_e, rfl⟩ := List.mem_map.mp h_row
    exact ⟨m, (users.get_eq_some_iff id m).mpr h_user, (m.get_eq_some_iff a l).mpr h_e⟩
  · rintro ⟨m, h_user, h_level⟩
    exact ⟨(row.userId, m), (users.get_eq_some_iff _ _).mp h_user,
      List.mem_map.mpr ⟨(row.area, row.level), (m.get_eq_some_iff _ _).mp h_level, rfl⟩⟩

/-- One row at most for an account and an area. -/
theorem nodup_grantRows (users : JsObject String AccessMap) :
    ((grantRows users).map UserGrant.key).Nodup := by
  rw [grantRows, List.map_flatMap, List.nodup_flatMap]
  constructor
  · intro user _
    rw [List.map_map]
    exact (List.Nodup.of_map Prod.snd (by
      rw [List.map_map]
      exact user.2.nodup))
  · have h_users : users.entries.Pairwise fun a b => a.1 ≠ b.1 :=
      List.pairwise_map.mp users.nodup
    refine h_users.imp fun {a b} h_ne => ?_
    intro key h_a h_b
    obtain ⟨row, h_row, rfl⟩ := List.mem_map.mp h_a
    obtain ⟨row', h_row', h_eq⟩ := List.mem_map.mp h_b
    obtain ⟨e, -, rfl⟩ := List.mem_map.mp h_row
    obtain ⟨e', -, rfl⟩ := List.mem_map.mp h_row'
    exact h_ne (congrArg Prod.fst h_eq).symm

theorem get_foldl_set_rows {rows : List UserGrant} (h : (rows.map (·.area)).Nodup) :
    (rows.foldl (fun m row => m.set row.area row.level) (JsObject.empty : AccessMap)).get area =
      some level ↔ ∃ row ∈ rows, row.area = area ∧ row.level = level := by
  have h_map : rows.foldl (fun m row => m.set row.area row.level) (JsObject.empty : AccessMap) =
      (rows.map fun row => (row.area, row.level)).foldl (fun m e => m.set e.1 e.2) .empty := by
    rw [List.foldl_map]
  have h_keys : ((rows.map fun row => (row.area, row.level)).map Prod.fst).Nodup := by
    rw [List.map_map]
    exact h
  rw [h_map, JsObject.get_foldl_set h_keys, JsObject.get_empty, Option.or_none]
  constructor
  · intro h_get
    obtain ⟨row, h_row, h_eq⟩ := List.mem_map.mp (mem_of_lookup_eq_some h_get)
    exact ⟨row, h_row, congrArg Prod.fst h_eq, congrArg Prod.snd h_eq⟩
  · rintro ⟨row, h_row, rfl, rfl⟩
    exact lookup_eq_some_of_mem h_keys (List.mem_map.mpr ⟨row, h_row, rfl⟩)

/-- An account reads back what the migration put together for it. -/
theorem grantsOf_grantRows {db : V19} {users : JsObject String AccessMap}
    (h : db.userGrants = grantRows users) :
    (db.grantsOf id).get area = ((users.get id).getD .empty).get area := by
  rw [V19.grantsOf, h]
  have h_areas : (((grantRows users).filter (·.userId == id)).map (·.area)).Nodup := by
    have h_keys := (nodup_grantRows users).sublist
      ((List.filter_sublist (p := fun row : UserGrant => row.userId == id)).map UserGrant.key)
    rw [List.Nodup, List.pairwise_map] at h_keys ⊢
    refine h_keys.imp_of_mem fun {a b} h_a h_b h_ne h_eq => h_ne ?_
    have h_aid := beq_iff_eq.mp (List.mem_filter.mp h_a).2
    have h_bid := beq_iff_eq.mp (List.mem_filter.mp h_b).2
    exact Prod.ext (h_aid.trans h_bid.symm) h_eq
  refine Option.ext fun level => ?_
  rw [get_foldl_set_rows h_areas]
  constructor
  · rintro ⟨row, h_row, rfl, rfl⟩
    obtain ⟨h_mem, h_id⟩ := List.mem_filter.mp h_row
    obtain ⟨m, h_user, h_level⟩ := mem_grantRows.mp h_mem
    rw [beq_iff_eq.mp h_id] at h_user
    rw [h_user]
    exact h_level
  · intro h_get
    cases h_user : users.get id with
    | none =>
      rw [h_user] at h_get
      cases h_get
    | some m =>
      rw [h_user] at h_get
      refine ⟨{ userId := id, area, level }, List.mem_filter.mpr ⟨?_, beq_self_eq_true id⟩, rfl, rfl⟩
      exact mem_grantRows.mpr ⟨m, h_user, h_get⟩

/-- Only accounts with a permission get levels. -/
theorem get_perUser_of_none (rows : List (String × String)) (m : JsObject String AccessMap)
    (h : ∀ row ∈ rows, row.1 ≠ id) : (rows.foldl addRow m).get id = m.get id := by
  induction rows generalizing m with
  | nil => rfl
  | cons row rows ih =>
    rw [List.foldl_cons, ih _ fun r h_r => h r (List.mem_cons_of_mem _ h_r), addRow]
    cases LEGACY.lookup row.2 with
    | none => rfl
    | some mapped =>
      dsimp only
      rw [JsObject.get_set, if_neg fun h_id => h row List.mem_cons_self h_id.symm]

/-- The migration goes through wherever the permissions belong to accounts. -/
theorem accessLevels_eq {db : V18}
    (h : ∀ row ∈ db.permissions, row.1 ∈ db.users.map (·.id)) :
    accessLevels db = some
      { users := db.users
        roles := BUILTIN.map builtinRole
        userGrants := grantRows (perUser db.permissions)
        permissions := db.permissions.filter fun row => !(LEGACY.map (·.1)).contains row.2
        servers := db.servers } := by
  have h_insert : (grantRows (perUser db.permissions)).foldlM addUserGrant [] =
      some (grantRows (perUser db.permissions)) :=
    foldlM_addUserGrant (nodup_grantRows _)
  have h_keys : ((grantRows (perUser db.permissions)).all fun row =>
      db.users.any (·.id == row.userId)) = true := by
    rw [List.all_eq_true]
    intro row h_row
    obtain ⟨m, h_user, -⟩ := mem_grantRows.mp h_row
    have h_some : ∃ r ∈ db.permissions, r.1 = row.userId := by
      by_contra h_none
      have h_all : ∀ r ∈ db.permissions, r.1 ≠ row.userId :=
        fun r h_r h_eq => h_none ⟨r, h_r, h_eq⟩
      rw [perUser, get_perUser_of_none _ _ h_all] at h_user
      cases h_user
    obtain ⟨r, h_r, h_id⟩ := h_some
    obtain ⟨u, h_u, h_uid⟩ := List.mem_map.mp (h r h_r)
    exact List.any_eq_true.mpr ⟨u, h_u, beq_iff_eq.mpr (h_uid.trans h_id)⟩
  show ((grantRows (perUser db.permissions)).foldlM addUserGrant []).bind _ = _
  rw [h_insert]
  dsimp only [Option.bind_some]
  rw [h_keys]
  rfl

end Rows

/-! ## Which keys are covered -/

section Covered

variable {area : AccessArea} {level : AccessLevel} {key : String} {old : List String}

/-- The keys that grant a level of an area. -/
def providers (area : AccessArea) (level : AccessLevel) : List String :=
  (LEGACY.filter fun entry =>
    entry.2.any fun e => e.1 == area && levelAtLeast (some e.2) level).map (·.1)

theorem nodup_keys : (LEGACY.map Prod.fst).Nodup := by decide +kernel

theorem grant_iff : Grant key area level ↔ key ∈ providers area level := by
  rw [Grant, providers, List.mem_map]
  constructor
  · rintro ⟨mapped, h_lookup, l, h_mem, h_level⟩
    refine ⟨(key, mapped), List.mem_filter.mpr ⟨mem_of_lookup_eq_some h_lookup, ?_⟩, rfl⟩
    exact List.any_eq_true.mpr ⟨(area, l), h_mem, by rw [h_level, beq_self_eq_true]; rfl⟩
  · rintro ⟨⟨k, mapped⟩, h_entry, rfl⟩
    obtain ⟨h_mem, h_any⟩ := List.mem_filter.mp h_entry
    obtain ⟨e, h_e, h_both⟩ := List.any_eq_true.mp h_any
    rw [Bool.and_eq_true, beq_iff_eq] at h_both
    exact ⟨mapped, lookup_eq_some_of_mem nodup_keys h_mem, e.2, h_both.1 ▸ h_e, h_both.2⟩

/-- What each old key needs, as the keys that would grant each part of it. -/
theorem needs_eq : (LEGACY.map fun entry => (entry.1, entry.2.map fun e => providers e.1 e.2)) =
    [("servers_view", [["servers_view", "servers_control"], ["servers_view", "servers_control"],
        ["servers_view", "servers_control", "servers_configure"],
        ["servers_view", "servers_configure"]]),
     ("servers_control",
       [["servers_control"], ["servers_control"], ["servers_control", "servers_configure"]]),
     ("servers_configure",
       [["servers_configure"], ["servers_configure"], ["servers_configure"],
        ["servers_configure"]]),
     ("servers_create", [["servers_configure", "servers_create"]]),
     ("file_manager", [["file_manager"]]),
     ("plugins_mgr", [["plugins_mgr"]]),
     ("backups", [["backups"], ["backups", "kubek_settings"]]),
     ("scheduler_mgr", [["scheduler_mgr"]]),
     ("java_mgr", [["java_mgr"]]),
     ("system_monitoring", [["system_monitoring"]]),
     ("audit_log", [["audit_log", "kubek_settings"]]),
     ("ai_assistant", [["ai_assistant", "kubek_settings"]]),
     ("accounts_mgr", [["accounts_mgr"]]),
     ("kubek_settings",
       [["kubek_settings"], ["kubek_settings"], ["kubek_settings"], ["kubek_settings"],
        ["kubek_settings"]])] := by
  decide +kernel

/-- Every part of an old key is granted by some of the others exactly where the account had
    the key, or the keys that make it up. -/
theorem covered_iff {entry : String × Grants} (h : entry ∈ LEGACY) :
    (∀ e ∈ entry.2, ∃ key ∈ old, Grant key e.1 e.2) ↔ Has old entry.1 := by
  have h_parts : (∀ e ∈ entry.2, ∃ key ∈ old, Grant key e.1 e.2) ↔
      ∀ keys ∈ entry.2.map fun e => providers e.1 e.2, ∃ key ∈ keys, key ∈ old := by
    rw [List.forall_mem_map]
    refine forall₂_congr fun e _ => ?_
    simp only [grant_iff]
    exact exists_congr fun key => and_comm
  rw [h_parts]
  have h_row := List.mem_map_of_mem
    (f := fun entry : String × Grants => (entry.1, entry.2.map fun e => providers e.1 e.2)) h
  rw [needs_eq] at h_row
  generalize entry.2.map (fun e => providers e.1 e.2) = needs at *
  generalize entry.1 = name at *
  simp only [List.mem_cons, List.not_mem_nil, or_false, Prod.mk.injEq] at h_row
  rcases h_row with ⟨rfl, rfl⟩ | ⟨rfl, rfl⟩ | ⟨rfl, rfl⟩ | ⟨rfl, rfl⟩ | ⟨rfl, rfl⟩ | ⟨rfl, rfl⟩ |
    ⟨rfl, rfl⟩ | ⟨rfl, rfl⟩ | ⟨rfl, rfl⟩ | ⟨rfl, rfl⟩ | ⟨rfl, rfl⟩ | ⟨rfl, rfl⟩ | ⟨rfl, rfl⟩ |
    ⟨rfl, rfl⟩
  all_goals simp [Has, GAINED]
  all_goals tauto

end Covered

/-! ## The accounts afterwards -/

section Accounts

variable {db : V18} {key : String} {old : List String}

theorem mem_keysOf {id : String} {rows : List (String × String)} :
    key ∈ keysOf id rows ↔ (id, key) ∈ rows := by
  rw [keysOf, List.mem_map]
  constructor
  · rintro ⟨⟨user, k⟩, h_row, rfl⟩
    obtain ⟨h_mem, h_id⟩ := List.mem_filter.mp h_row
    rwa [← beq_iff_eq.mp h_id]
  · intro h_row
    exact ⟨(id, key), List.mem_filter.mpr ⟨h_row, beq_self_eq_true id⟩, rfl⟩

theorem isLegacyPermission_iff : isLegacyPermission key = true ↔ ∃ e ∈ LEGACY, e.1 = key := by
  rw [isLegacyPermission, List.any_eq_true, LEGACY_eq]
  exact exists_congr fun e => and_congr_right fun _ => beq_iff_eq

/-- A key that other keys cover is an old one. -/
theorem legacy_of_gained {g : String × List String} (h : g ∈ GAINED) :
    isLegacyPermission g.1 = true := by
  have h_all : (GAINED.all fun g => isLegacyPermission g.1) = true := rfl
  exact List.all_eq_true.mp h_all g h

/-- The old keys that the levels of the account cover. -/
theorem mem_legacyFromAccess {m : AccessMap}
    (h : ∀ area level, levelAtLeast (m.get area) level = true ↔
      ∃ key ∈ old, Grant key area level) :
    key ∈ legacyFromAccess m ↔ isLegacyPermission key = true ∧ Has old key := by
  rw [legacyFromAccess, List.mem_map, isLegacyPermission_iff, LEGACY_eq]
  have h_within : ∀ e ∈ LEGACY_PERMISSION_ACCESS,
      accessWithin e.2 m = true ↔ Has old e.1 := by
    intro e h_e
    rw [accessWithin, List.all_eq_true, ← covered_iff (LEGACY_eq ▸ h_e)]
    exact forall₂_congr fun g _ => h g.1 g.2
  constructor
  · rintro ⟨e, h_e, rfl⟩
    obtain ⟨h_mem, h_cover⟩ := List.mem_filter.mp h_e
    exact ⟨⟨e, h_mem, rfl⟩, (h_within e h_mem).mp h_cover⟩
  · rintro ⟨⟨e, h_e, rfl⟩, h_has⟩
    exact ⟨e, List.mem_filter.mpr ⟨h_e, (h_within e h_e).mpr h_has⟩, rfl⟩

/-- **Nobody loses an old permission.** Wherever the permissions belong to accounts the
    migration goes through; afterwards an account holds a level exactly where one of its keys
    granted it, in whatever order the rows came, and an extension that checks keys finds the
    ones the account had, the few that these make up together, and for an admin all old ones. -/
theorem migrated_access (h : ∀ row ∈ db.permissions, row.1 ∈ db.users.map (·.id)) :
    ∃ after, accessLevels db = some after ∧
      (after.tables.users.map fun u => (u.id, u.isAdmin)) =
        db.users.map (fun u => (u.id, u.isAdmin)) ∧
      ∀ row ∈ after.tables.users,
        (∀ area level,
          levelAtLeast ((after.tables.deserialize row).access.levels.get area) level = true ↔
            ∃ key ∈ keysOf row.id db.permissions, Grant key area level) ∧
        ∀ key, key ∈ extPermissionsOf (after.tables.deserialize row) ↔
          Has (keysOf row.id db.permissions) key ∨
            (row.isAdmin = true ∧ isLegacyPermission key = true) := by
  refine ⟨_, accessLevels_eq h, ?_, ?_⟩
  · rw [V19.tables, List.map_map]
    rfl
  generalize h_after : ({ users := db.users, roles := BUILTIN.map builtinRole
                          userGrants := grantRows (perUser db.permissions)
                          permissions := db.permissions.filter fun row =>
                            !(LEGACY.map (·.1)).contains row.2
                          servers := db.servers } : V19) = after
  have h_grants : after.userGrants = grantRows (perUser db.permissions) := by rw [← h_after]
  have h_left : after.permissions =
      db.permissions.filter fun row => !(LEGACY.map (·.1)).contains row.2 := by rw [← h_after]
  intro row h_row
  obtain ⟨u, -, rfl⟩ := List.mem_map.mp h_row
  -- the levels: what was put together for the account, read back
  have h_levels : ∀ area level,
      levelAtLeast ((after.tables.deserialize
        { id := u.id, username := u.username, password := u.password, isAdmin := u.isAdmin
          roles := [], grants := after.grantsOf u.id
          extPermissions := keysOf u.id after.permissions
          serversRestrict := u.serversRestrict }).access.levels.get area) level = true ↔
        ∃ key ∈ keysOf u.id db.permissions, Grant key area level := by
    intro area level
    have h_start : ∀ id, AllReal (((JsObject.empty : JsObject String AccessMap).get id).getD .empty) :=
      fun id a l h_get => by cases h_get
    have h_real : AllReal (after.grantsOf u.id) := by
      intro a l h_get
      rw [grantsOf_grantRows h_grants] at h_get
      exact allReal_perUser _ h_start u.id a l h_get
    rw [AccessTables.deserialize, levelAtLeast_mergeAccess]
    have h_roles : ∀ needed, ¬ levelAtLeast
        ((mergeAccess (after.tables.roleGrants [])).get area) needed = true := by
      intro needed h_level
      rw [levelAtLeast_mergeAccess] at h_level
      obtain ⟨m, h_m, -⟩ := h_level
      cases h_m
    rw [List.exists_mem_cons_iff, List.exists_mem_cons_iff, levels_of_allReal h_real,
      grantsOf_grantRows h_grants, perUser, levelAtLeast_foldl_addRow]
    constructor
    · rintro ((h_none | h_key) | h_role | ⟨m, h_m, -⟩)
      · cases h_none
      · exact h_key
      · exact absurd h_role (h_roles level)
      · cases h_m
    · exact fun h_key => .inl (.inr h_key)
  refine ⟨h_levels, fun key => ?_⟩
  -- the keys that stayed are those that were no old ones
  have h_ext : ∀ k, k ∈ unique (keysOf u.id after.permissions ++ after.tables.roleExt []) ↔
      k ∈ keysOf u.id db.permissions ∧ isLegacyPermission k = false := by
    intro k
    have h_names : (LEGACY.map (·.1)).contains k = isLegacyPermission k := by
      rw [Bool.eq_iff_iff, List.contains_iff_mem, isLegacyPermission_iff, List.mem_map]
    rw [mem_unique, List.mem_append, mem_keysOf, mem_keysOf, h_left, List.mem_filter, h_names,
      Bool.not_eq_true']
    exact ⟨fun h_or => h_or.elim id fun h_nil => (by cases h_nil), .inl⟩
  rw [extPermissionsOf, List.mem_append]
  show _ ∨ key ∈ unique (keysOf u.id after.permissions ++ after.tables.roleExt []) ↔ _
  rw [h_ext]
  cases h_admin : u.isAdmin with
  | true =>
    have h_all : key ∈ LEGACY_PERMISSION_ACCESS.map (·.1) ↔ isLegacyPermission key = true := by
      rw [isLegacyPermission_iff, LEGACY_eq, List.mem_map]
    show key ∈ LEGACY_PERMISSION_ACCESS.map (·.1) ∨ _ ↔ _
    rw [h_all]
    constructor
    · rintro (h_key | h_key)
      · exact .inr ⟨rfl, h_key⟩
      · exact .inl (.inl h_key.1)
    · rintro ((h_key | ⟨g, h_g, rfl, -⟩) | h_key)
      · cases h_legacy : isLegacyPermission key with
        | true => exact .inl rfl
        | false => exact .inr ⟨h_key, rfl⟩
      · exact .inl (legacy_of_gained h_g)
      · exact .inl h_key.2
  | false =>
    rw [h_admin] at h_levels
    show key ∈ legacyFromAccess _ ∨ _ ↔ _
    rw [mem_legacyFromAccess h_levels]
    constructor
    · rintro (h_key | h_key)
      · exact .inl h_key.2
      · exact .inl (.inl h_key.1)
    · rintro (h_has | h_key)
      · cases h_legacy : isLegacyPermission key with
        | true => exact .inl ⟨rfl, h_has⟩
        | false =>
          obtain h_key | ⟨g, h_g, rfl, -⟩ := h_has
          · exact .inr ⟨h_key, rfl⟩
          · rw [legacy_of_gained h_g] at h_legacy
            cases h_legacy
      · cases h_key.1

/-- An account that viewed and configured servers, with a key of an extension: it may now
    create servers too, and change no settings of the panel. -/
theorem migrated_access_configure :
    let db : V18 :=
      { users := [⟨"u", "ann", "x", false, ⟨false, []⟩⟩]
        permissions := [("u", "servers_configure"), ("u", "ext.discord.configure"),
          ("u", "servers_view")]
        servers := [] }
    ∃ after, accessLevels db = some after ∧ ∃ row ∈ after.tables.users,
      "ext.discord.configure" ∈ extPermissionsOf (after.tables.deserialize row) ∧
      "servers_create" ∈ extPermissionsOf (after.tables.deserialize row) ∧
      "kubek_settings" ∉ extPermissionsOf (after.tables.deserialize row) := by
  intro db
  have h_rows : ∀ row ∈ db.permissions, row.1 ∈ db.users.map (·.id) := by
    intro row h_row
    simp only [db, List.mem_cons, List.not_mem_nil, or_false] at h_row
    rcases h_row with rfl | rfl | rfl <;> exact List.mem_singleton_self _
  obtain ⟨after, h_after, h_users, h_all⟩ := migrated_access h_rows
  have h_mem : ("u", false) ∈ after.tables.users.map fun u => (u.id, u.isAdmin) := by
    rw [h_users]
    exact List.mem_singleton_self _
  obtain ⟨row, h_row, h_eq⟩ := List.mem_map.mp h_mem
  obtain ⟨h_id, h_admin⟩ := Prod.mk.inj h_eq
  have h_keys : keysOf row.id db.permissions =
      ["servers_configure", "ext.discord.configure", "servers_view"] := by
    rw [h_id]
    rfl
  have h_has := (h_all row h_row).2
  rw [h_keys, h_admin] at h_has
  refine ⟨after, h_after, row, h_row, (h_has _).mpr ?_, (h_has _).mpr ?_, fun h_key => ?_⟩
  · simp [Has]
  · simp [Has, GAINED]
  · have h_not := (h_has _).mp h_key
    simp [Has, GAINED] at h_not

end Accounts

end Kubek.Migrations.AccessLevels
