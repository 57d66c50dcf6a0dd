/-
  Kubek.Access.NoEscalation

  No request of a non-admin gives an account anything the actor does not hold.

  Every operation is inverted to the write it makes and the verdicts it passed; what an
  account gains is then bounded account by account (`Gained`). The stored record of an
  admin account is out of reach, with one exception by design: removing a role takes it
  out of every account that has it, admin accounts included, and an actor without a
  server list may remove any role within its own access
  (`role_removal_changes_admin_record`).
-/

import Kubek.Access.Operations

namespace Kubek.Access

open Fallible JsMap Transition

/-! ## What an account gains -/

/-- Whatever `new` can do, `old` could do or `actor` can do. -/
structure Gained (actor : AccessSubject) (old : Option AccessSubject) (new : AccessSubject) :
    Prop where
  level : ∀ area level, can new area level = true →
    (∃ o, old = some o ∧ can o area level = true) ∨ can actor area level = true
  triple : ∀ area level server, canOnServer new area level server = true →
    (∃ o, old = some o ∧ canOnServer o area level server = true) ∨
      canOnServer actor area level server = true

namespace Gained

variable {actor new : AccessSubject} {old : Option AccessSubject}

/-- Everything new is within the actor. -/
theorem of_within (h_level : ∀ area level, can new area level = true → can actor area level = true)
    (h_reach : ∀ server, reachesServer new server = true → reachesServer actor server = true) :
    Gained actor old new where
  level area level h := .inr (h_level area level h)
  triple area level server h := by
    simp only [canOnServer, Bool.and_eq_true] at h ⊢
    exact .inr ⟨h_level area level h.1, h_reach server h.2⟩

/-- The servers stay, and a new level is one the actor holds on all of them. -/
theorem of_levels {o : AccessSubject}
    (h_same : ∀ server, reachesServer new server = true → reachesServer o server = true)
    (h_level : ∀ area level, can new area level = true → can o area level = true ∨
      (can actor area level = true ∧
        ∀ server, reachesServer o server = true → reachesServer actor server = true)) :
    Gained actor (some o) new where
  level area level h := by
    rcases h_level area level h with h_old | ⟨h_actor, -⟩
    · exact .inl ⟨o, rfl, h_old⟩
    · exact .inr h_actor
  triple area level server h := by
    simp only [canOnServer, Bool.and_eq_true] at h ⊢
    have h_server := h_same server h.2
    rcases h_level area level h.1 with h_old | ⟨h_actor, h_reach⟩
    · exact .inl ⟨o, rfl, h_old, h_server⟩
    · exact .inr ⟨h_actor, h_reach server h_server⟩

/-- Nothing new at all. -/
theorem of_le {o : AccessSubject}
    (h_same : ∀ server, reachesServer new server = true → reachesServer o server = true)
    (h_level : ∀ area level, can new area level = true → can o area level = true) :
    Gained actor (some o) new :=
  of_levels h_same fun area level h => .inl (h_level area level h)

end Gained

/-! ## Reading a row back -/

section Rows

variable {t t' : AccessTables}

theorem can_deserialize (row : UserRow) (area : AccessArea) (level : AccessLevel) :
    can (t.deserialize row).toAccessSubject area level = true ↔
      row.isAdmin = true ∨ levelAtLeast ((levels row.grants).get area) level = true ∨
        ∃ role ∈ t.roles, role.id ∈ row.roles ∧
          levelAtLeast ((levels role.grants).get area) level = true := by
  rw [can, Bool.or_eq_true, levelAtLeast_deserialize]
  rfl

theorem reaches_deserialize (row : UserRow) (server : ServerId) :
    reachesServer (t.deserialize row).toAccessSubject server =
      reachesServer (t'.deserialize row).toAccessSubject server := rfl

/-- With fewer grants behind the same row, the account can do less. -/
theorem can_deserialize_mono {row : UserRow} {area : AccessArea} {level : AccessLevel}
    (h_roles : ∀ role ∈ t'.roles, role.id ∈ row.roles → role ∈ t.roles)
    (h : can (t'.deserialize row).toAccessSubject area level = true) :
    can (t.deserialize row).toAccessSubject area level = true := by
  rw [can_deserialize] at h ⊢
  rcases h with h | h | ⟨role, h_role, h_id, h⟩
  · exact .inl h
  · exact .inr (.inl h)
  · exact .inr (.inr ⟨role, h_roles role h_role h_id, h_id, h⟩)

theorem mapM_mem {ε α β : Type} {f : α → Except ε β} {xs : List α} {ys : List β}
    (h : xs.mapM f = .ok ys) : ∀ x ∈ xs, ∃ y ∈ ys, f x = .ok y := by
  induction xs generalizing ys with
  | nil => simp
  | cons x xs ih =>
    rw [List.mapM_cons, bind_eq_ok] at h
    obtain ⟨y, hy, h⟩ := h
    rw [bind_eq_ok] at h
    obtain ⟨zs, hzs, h⟩ := h
    have h_ys : y :: zs = ys := by simpa [pure, Except.pure] using h
    subst h_ys
    intro x' hx'
    rcases List.mem_cons.mp hx' with rfl | hx'
    · exact ⟨y, List.mem_cons_self, hy⟩
    · obtain ⟨z, hz, h_eq⟩ := ih hzs x' hx'
      exact ⟨z, List.mem_cons_of_mem _ hz, h_eq⟩

/-- The roles behind the ids are among the resolved ones. -/
theorem resolve_mem (h_wf : t.WF) {ids : List RoleId} {roles : List Role}
    (h : t.resolve ids = .ok roles) {role : Role} (h_role : role ∈ t.roles)
    (h_id : role.id ∈ ids) : AccessTables.deserializeRole role ∈ roles := by
  obtain ⟨found, h_found, h_eq⟩ := mapM_mem h role.id (mem_unique.mpr h_id)
  cases h_find : t.findRoleById role.id with
  | none => simp [h_find] at h_eq
  | some other =>
    rw [h_find] at h_eq
    obtain ⟨row, h_row, h_row_id, rfl⟩ := findRoleById_mem h_find
    have h_same : row = role := List.inj_on_of_nodup_map h_wf.roleIds h_row h_role h_row_id
    have h_found_eq : AccessTables.deserializeRole row = found := by simpa using h_eq
    rw [← h_same, h_found_eq]
    exact h_found

/-- What is written holds no more than the planned effective access. -/
theorem level_userRow (h_wf : t.WF) {user : User} {roles : List Role}
    (h_resolve : t.resolve user.roles = .ok roles) (h_roles : t'.roles = t.roles)
    {area : AccessArea} {level : AccessLevel}
    (h : levelAtLeast
      ((t'.deserialize (t.userRow user)).access.levels.get area) level = true) :
    levelAtLeast ((effectiveAccess roles user.grants user.extPermissions).levels.get area) level =
      true := by
  rw [levelAtLeast_deserialize] at h
  simp only [effectiveAccess, levelAtLeast_mergeAccess, List.mem_append, List.mem_map,
    List.mem_singleton]
  rcases h with h | ⟨role, h_role, h_id, h⟩
  · exact ⟨user.grants, .inr rfl, levelAtLeast_levels (levelAtLeast_levels h)⟩
  · rw [h_roles] at h_role
    have h_member : role.id ∈ user.roles := (List.mem_filter.mp (mem_unique.mp h_id)).1
    exact ⟨levels role.grants, .inl ⟨_, resolve_mem h_wf h_resolve h_role h_member, rfl⟩, h⟩

/-- A written account is within an actor that was allowed to write it. -/
theorem gained_userRow (h_wf : t.WF) {actor : AccessSubject} (h_actor : actor.isAdmin = false)
    {user : User} (h_user : user.isAdmin = false) {roles : List Role}
    (h_resolve : t.resolve user.roles = .ok roles)
    (h_grant : canGrant actor (AccessTables.planOf roles user) = none)
    (h_roles : t'.roles = t.roles) (old : Option AccessSubject) :
    Gained actor old (t'.deserialize (t.userRow user)).toAccessSubject := by
  refine .of_within ?_ ?_
  · intro area level h
    simp only [can, Bool.or_eq_true] at h ⊢
    rcases h with h | h
    · have h_admin : user.isAdmin = true := h
      rw [h_user] at h_admin
      cases h_admin
    · exact .inr (level_of_canGrant h_actor h_grant (level_userRow h_wf h_resolve h_roles h))
  · intro server h
    refine reach_of_canGrant h_actor h_grant fun h_enabled => ?_
    have h_enabled' : user.serversRestrict.enabled = true := h_enabled
    simp only [reachesServer, AccessTables.deserialize, AccessTables.userRow, h_user, h_enabled',
      Bool.not_true, Bool.or_self, Bool.false_eq_true, if_false, List.contains_eq_mem,
      decide_eq_true_eq, mem_unique, List.mem_filter] at h
    exact h.1

end Rows

/-! ## The write of an accepted request -/

/-- The write a non-admin's request makes, with the verdicts it passed. -/
inductive Write (t : AccessTables) (actor : AccessSubject) (op : Operation) (t' : AccessTables) :
    Prop
  | createUser (user : User) (roles : List Role) (h_new : ∀ row ∈ t.users, row.id ≠ user.id)
      (h_admin : user.isAdmin = false) (h_resolve : t.resolve user.roles = .ok roles)
      (h_grant : canGrant actor (AccessTables.planOf roles user) = none)
      (eq : t' = { t with users := t.users ++ [t.userRow user] })
  | updateUser (row : UserRow) (user : User) (roles : List Role) (h_row : row ∈ t.users)
      (h_id : user.id = row.id) (h_old : row.isAdmin = false) (h_admin : user.isAdmin = false)
      (h_resolve : t.resolve user.roles = .ok roles)
      (h_grant : canGrant actor (AccessTables.planOf roles user) = none)
      (eq : t' = { t with users := t.users.map fun u => if u.id = user.id then t.userRow user else u })
  | createRole (role : Role) (h_new : ∀ row ∈ t.roles, row.id ≠ role.id)
      (eq : t' = { t with roles := t.roles ++ [AccessTables.roleRow role] })
  | updateRole (next : Role) (h_use : canUseRole actor next = none)
      (h_members : canChangeRoleMembers actor (t.members next.id) = none)
      (eq : t' = { t with
        roles := t.roles.map fun r =>
          if r.id = next.id then
            { AccessTables.roleRow next with id := r.id, builtinKey := r.builtinKey }
          else r })
  | removeRole (id : RoleId) (h_op : op = .removeRole id) (eq : t' = t.deleteRole id)

section Inversion

variable {t t' : AccessTables} {actor : User} {op : Operation} {events : List AppEvent}

theorem createUser_eq_ok {user : User} (h : t.createUser user = .ok t') :
    (∀ row ∈ t.users, row.id ≠ user.id) ∧ t' = { t with users := t.users ++ [t.userRow user] } := by
  simp only [AccessTables.createUser] at h
  split at h
  · cases h
  · rename_i h_id
    split at h
    · cases h
    · cases h
      exact ⟨by simpa using h_id, rfl⟩

theorem createRole_eq_ok {role : Role} (h : t.createRole role = .ok t') :
    (∀ row ∈ t.roles, row.id ≠ role.id) ∧
      t' = { t with roles := t.roles ++ [AccessTables.roleRow role] } := by
  simp only [AccessTables.createRole] at h
  split at h
  · cases h
  · rename_i h_id
    split at h
    · cases h
    · cases h
      exact ⟨by simpa using h_id, rfl⟩

theorem updateRole_eq_ok {role : Role} (h : t.updateRole role = .ok t') :
    t' = { t with
      roles := t.roles.map fun r =>
        if r.id = role.id then
          { AccessTables.roleRow role with id := r.id, builtinKey := r.builtinKey }
        else r } := by
  simp only [AccessTables.updateRole] at h
  split at h
  · cases h
  · cases h
    rfl

theorem Write.of_createAccount {body : CreateAccountDto} {newId hash : String}
    (h : t.createAccount actor body newId hash = .ok (t', events)) :
    Write t actor.toAccessSubject op t' := by
  simp only [AccessTables.createAccount, bind_eq_ok, enforce_eq_ok, refuseIf_eq_ok,
    runSql_eq_ok] at h
  obtain ⟨roles, h_resolve, -, h_grant, -, -, t₁, h_create, h_eq⟩ := h
  cases h_eq
  obtain ⟨h_new, rfl⟩ := createUser_eq_ok h_create
  exact .createUser _ roles h_new rfl h_resolve h_grant rfl

theorem Write.of_updateAccount (h_actor : actor.isAdmin = false) {username : String}
    {dto : UpdateAccountDto} {hash : String}
    (h : t.updateAccount actor username dto hash = .ok (t', events)) :
    Write t actor.toAccessSubject op t' := by
  simp only [AccessTables.updateAccount, bind_eq_ok, enforce_eq_ok, refuseIf_eq_ok,
    runSql_eq_ok, findAccount_eq_ok] at h
  obtain ⟨user, h_user, -, h_manage, roles, h_resolve, -, h_grant, -, -, t₁, h_update, h_eq⟩ := h
  cases h_eq
  obtain ⟨row, h_row, rfl⟩ := findByUsername_mem h_user
  -- an admin account is refused before anything else is looked at
  have h_old : row.isAdmin = false := by
    by_contra h_admin
    have h_target : (t.deserialize row).isAdmin = true := Bool.not_eq_false _ ▸ h_admin
    simp [canManageAccount, h_target, h_actor] at h_manage
  have h_admin : (AccessTables.merged actor (t.deserialize row) dto hash).isAdmin = false := by
    simp only [AccessTables.merged, h_actor, Bool.false_eq_true, if_false]
    exact h_old
  exact .updateUser row _ roles h_row rfl h_old h_admin h_resolve h_grant
    (updateUser_eq_ok h_update)

theorem Write.of_createRole {name : String} {input : RoleInput} {newId : RoleId}
    (h : t.createRoleFor actor name input newId = .ok (t', events)) :
    Write t actor.toAccessSubject op t' := by
  simp only [AccessTables.createRoleFor, bind_eq_ok, enforce_eq_ok, runSql_eq_ok] at h
  obtain ⟨_, -, -, -, t₁, h_create, h_eq⟩ := h
  cases h_eq
  obtain ⟨h_new, rfl⟩ := createRole_eq_ok h_create
  exact .createRole _ h_new rfl

theorem Write.of_updateRole {id : RoleId} {input : RoleInput}
    (h : t.updateRoleFor actor id input = .ok (t', events)) :
    Write t actor.toAccessSubject op t' := by
  simp only [AccessTables.updateRoleFor, bind_eq_ok, enforce_eq_ok, refuseIf_eq_ok,
    runSql_eq_ok, findRole_eq_ok] at h
  obtain ⟨before, h_before, -, -, -, h_members, -, -, _, -, -, h_use, t₁, h_update, h_eq⟩ := h
  cases h_eq
  obtain ⟨row, -, h_id, rfl⟩ := findRoleById_mem h_before
  subst h_id
  exact .updateRole _ h_use h_members (updateRole_eq_ok h_update)

theorem Write.of_removeRole {id : RoleId}
    (h : t.removeRoleFor actor id = .ok (t', events)) :
    Write t actor.toAccessSubject (.removeRole id) t' := by
  simp only [AccessTables.removeRoleFor, bind_eq_ok, enforce_eq_ok, refuseIf_eq_ok] at h
  obtain ⟨_, -, -, -, -, -, -, -, h_eq⟩ := h
  cases h_eq
  exact .removeRole id rfl rfl

/-- **Inversion of an accepted request.** -/
theorem Write.of_perform (h_actor : actor.isAdmin = false)
    (h : perform t actor op = .ok (t', events)) : Write t actor.toAccessSubject op t' := by
  cases op with
  | createAccount body newId hash => exact .of_createAccount h
  | updateAccount username dto hash => exact .of_updateAccount h_actor h
  | createRole name input newId => exact .of_createRole h
  | updateRole id input => exact .of_updateRole h
  | duplicateRole id name newId =>
    simp only [perform, AccessTables.duplicateRoleFor, bind_eq_ok] at h
    obtain ⟨_, -, h⟩ := h
    exact .of_createRole h
  | removeRole id => exact .of_removeRole h

end Inversion

/-! ## What a write changes -/

namespace Write

variable {t t' : AccessTables} {actor : AccessSubject} {op : Operation}

/-- The keys stay keys and no role dangles. -/
theorem wf (h_wf : t.WF) (h : Write t actor op t') : t'.WF := by
  have h_known : ∀ (user : User) (id : RoleId), id ∈ (t.userRow user).roles →
      id ∈ t.roles.map (·.id) := by
    intro user id h_id
    have h_any := (List.mem_filter.mp (mem_unique.mp h_id)).2
    simpa using h_any
  cases h with
  | createUser user roles h_new _ _ _ eq =>
    subst eq
    refine ⟨?_, h_wf.roleIds, ?_⟩
    · rw [List.map_append, List.nodup_append]
      refine ⟨h_wf.userIds, by simp, ?_⟩
      intro id h_id id' h_id' h_eq
      obtain ⟨row, h_row, rfl⟩ := List.mem_map.mp h_id
      have h_self : id' = user.id := by simpa [AccessTables.userRow] using h_id'
      exact h_new row h_row (h_eq.trans h_self)
    · intro u h_u id h_id
      rcases List.mem_append.mp h_u with h_u | h_u
      · exact h_wf.userRoles u h_u id h_id
      · have h_u' : u = t.userRow user := by simpa using h_u
        exact h_known user id (h_u' ▸ h_id)
  | updateUser row user roles _ h_id _ _ _ _ eq =>
    subst eq
    refine ⟨?_, h_wf.roleIds, ?_⟩
    · have h_ids : (t.users.map fun u => if u.id = user.id then t.userRow user else u).map (·.id) =
          t.users.map (·.id) := by
        rw [List.map_map]
        refine List.map_congr_left fun u _ => ?_
        by_cases h : u.id = user.id
        · simp [h, AccessTables.userRow]
        · simp [h]
      show ((t.users.map fun u => if u.id = user.id then t.userRow user else u).map (·.id)).Nodup
      rw [h_ids]
      exact h_wf.userIds
    · intro u h_u id h_role
      obtain ⟨v, h_v, rfl⟩ := List.mem_map.mp h_u
      split at h_role
      · exact h_known user id h_role
      · exact h_wf.userRoles v h_v id h_role
  | createRole role h_new eq =>
    subst eq
    refine ⟨h_wf.userIds, ?_, ?_⟩
    · rw [List.map_append, List.nodup_append]
      refine ⟨h_wf.roleIds, by simp, ?_⟩
      intro id h_id id' h_id' h_eq
      obtain ⟨row, h_row, rfl⟩ := List.mem_map.mp h_id
      have h_self : id' = role.id := by simpa [AccessTables.roleRow] using h_id'
      exact h_new row h_row (h_eq.trans h_self)
    · intro u h_u id h_id
      rw [List.map_append]
      exact List.mem_append_left _ (h_wf.userRoles u h_u id h_id)
  | updateRole next _ _ eq =>
    subst eq
    have h_ids : (t.roles.map fun r => if r.id = next.id then
          { AccessTables.roleRow next with id := r.id, builtinKey := r.builtinKey }
        else r).map (·.id) = t.roles.map (·.id) := by
      rw [List.map_map]
      refine List.map_congr_left fun r _ => ?_
      by_cases h : r.id = next.id <;> simp [h]
    refine ⟨h_wf.userIds, ?_, ?_⟩
    · exact h_ids ▸ h_wf.roleIds
    · intro u h_u id h_id
      exact h_ids ▸ h_wf.userRoles u h_u id h_id
  | removeRole id _ eq =>
    subst eq
    refine ⟨?_, ?_, ?_⟩
    · have h_ids : ((t.deleteRole id).users.map (·.id)) = t.users.map (·.id) := by
        simp only [AccessTables.deleteRole, List.map_map]
        rfl
      rw [h_ids]
      exact h_wf.userIds
    · exact h_wf.roleIds.sublist (List.filter_sublist.map _)
    · intro u h_u id' h_id'
      obtain ⟨v, h_v, rfl⟩ := List.mem_map.mp h_u
      obtain ⟨h_mem, h_ne⟩ := List.mem_filter.mp h_id'
      obtain ⟨r, h_r, rfl⟩ := List.mem_map.mp (h_wf.userRoles v h_v id' h_mem)
      exact List.mem_map.mpr ⟨r, List.mem_filter.mpr ⟨h_r, h_ne⟩, rfl⟩

/-- A member of the role is reached by an actor that may change the role. -/
theorem members_reached (h_wf : t.WF) {id : RoleId}
    (h : canChangeRoleMembers actor (t.members id) = none) {row : UserRow}
    (h_row : row ∈ t.users) (h_role : id ∈ row.roles) {server : ServerId}
    (h_reach : reachesServer (t.deserialize row).toAccessSubject server = true) :
    reachesServer actor server = true := by
  have h_find : t.findById row.id = some (t.deserialize row) :=
    (findById_eq_some_iff h_wf).mpr ⟨row, h_row, rfl, rfl⟩
  have h_member : t.deserialize row ∈ t.members id := by
    refine List.mem_filterMap.mpr ⟨row.id, ?_, h_find⟩
    exact List.mem_map.mpr ⟨row, List.mem_filter.mpr ⟨h_row, by simpa using h_role⟩, rfl⟩
  rw [canChangeRoleMembers, refuseAll_eq_none, List.map_eq_nil_iff] at h
  have h_none := List.filter_eq_nil_iff.mp h (t.deserialize row) h_member
  exact reach_of_canReachServers (by simpa using h_none) h_reach

/-- What the account `id` gains. -/
theorem gained (h_wf : t.WF) (h_actor : actor.isAdmin = false) (h : Write t actor op t')
    {id : String} {u' : User} (h_u' : t'.findById id = some u') :
    Gained actor ((t.findById id).map (·.toAccessSubject)) u'.toAccessSubject := by
  obtain ⟨row', h_row', rfl, rfl⟩ := (findById_eq_some_iff (h.wf h_wf)).mp h_u'
  -- an account whose row did not change
  have h_kept : ∀ row ∈ t.users, row.id = row'.id →
      (t.findById row'.id).map (·.toAccessSubject) = some (t.deserialize row).toAccessSubject := by
    intro row h_row h_id
    rw [(findById_eq_some_iff h_wf).mpr ⟨row, h_row, h_id, rfl⟩]
    rfl
  cases h with
  | createUser user roles _ h_admin h_resolve h_grant eq =>
    subst eq
    rcases List.mem_append.mp h_row' with h_old | h_new
    · rw [h_kept row' h_old rfl]
      exact .of_le (fun _ h => h) fun _ _ h => can_deserialize_mono (fun _ h _ => h) h
    · obtain rfl : row' = t.userRow user := by simpa using h_new
      exact gained_userRow h_wf h_actor h_admin h_resolve h_grant rfl _
  | updateUser row user roles _ h_id _ h_admin h_resolve h_grant eq =>
    subst eq
    obtain ⟨v, h_v, h_eq⟩ := List.mem_map.mp h_row'
    by_cases h_self : v.id = user.id
    · rw [if_pos h_self] at h_eq
      subst h_eq
      exact gained_userRow h_wf h_actor h_admin h_resolve h_grant rfl _
    · rw [if_neg h_self] at h_eq
      subst h_eq
      rw [h_kept v h_v rfl]
      exact .of_le (fun _ h => h) fun _ _ h => can_deserialize_mono (fun _ h _ => h) h
  | createRole role h_new eq =>
    subst eq
    rw [h_kept row' h_row' rfl]
    refine .of_le (fun _ h => h) fun _ _ h => can_deserialize_mono (fun r h_r h_id => ?_) h
    rcases List.mem_append.mp h_r with h_r | h_r
    · exact h_r
    · -- the new role has no members yet
      obtain rfl : r = AccessTables.roleRow role := by simpa using h_r
      obtain ⟨old, h_old, h_eq⟩ := List.mem_map.mp (h_wf.userRoles row' h_row' _ h_id)
      exact absurd h_eq (h_new old h_old)
  | updateRole next h_use h_members eq =>
    subst eq
    rw [h_kept row' h_row' rfl]
    refine .of_levels (fun _ h => h) fun area level h => ?_
    rw [can_deserialize] at h
    rcases h with h | h | ⟨r, h_r, h_id, h⟩
    · exact .inl ((can_deserialize ..).mpr (.inl h))
    · exact .inl ((can_deserialize ..).mpr (.inr (.inl h)))
    · obtain ⟨old, h_old, rfl⟩ := List.mem_map.mp h_r
      split at h_id
      · -- the role that changed: its new level is the actor's, its members are reached
        rename_i h_self
        simp only [h_self, if_true] at h
        have h_level := level_of_accessAbove_nil h_actor (refuseAll_eq_none.mp h_use)
          (levelAtLeast_levels (levelAtLeast_levels h))
        refine .inr ⟨by simp [can, h_level], fun server h_reach => ?_⟩
        exact members_reached h_wf h_members h_row' (h_self ▸ h_id) h_reach
      · rename_i h_other
        simp only [h_other, if_false] at h
        exact .inl ((can_deserialize ..).mpr (.inr (.inr ⟨old, h_old, h_id, h⟩)))
  | removeRole id _ eq =>
    subst eq
    obtain ⟨v, h_v, rfl⟩ := List.mem_map.mp h_row'
    rw [h_kept v h_v rfl]
    refine .of_le (fun _ h => h) fun area level h => ?_
    rw [can_deserialize] at h ⊢
    rcases h with h | h | ⟨r, h_r, h_id, h⟩
    · exact .inl h
    · exact .inr (.inl h)
    · exact .inr (.inr ⟨r, (List.mem_filter.mp h_r).1, (List.mem_filter.mp h_id).1, h⟩)

/-- Nobody becomes an admin. -/
theorem no_new_admin (h : Write t actor op t') {row' : UserRow} (h_row' : row' ∈ t'.users)
    (h_admin : row'.isAdmin = true) : ∃ row ∈ t.users, row.id = row'.id ∧ row.isAdmin = true := by
  cases h with
  | createUser user roles _ h_user _ _ eq =>
    subst eq
    rcases List.mem_append.mp h_row' with h_old | h_new
    · exact ⟨row', h_old, rfl, h_admin⟩
    · obtain rfl : row' = t.userRow user := by simpa using h_new
      have h_not : (t.userRow user).isAdmin = false := h_user
      rw [h_not] at h_admin
      cases h_admin
  | updateUser _ user roles _ _ _ h_user _ _ eq =>
    subst eq
    obtain ⟨v, h_v, rfl⟩ := List.mem_map.mp h_row'
    split at h_admin
    · have h_not : (t.userRow user).isAdmin = false := h_user
      rw [h_not] at h_admin
      cases h_admin
    · rename_i h_other
      exact ⟨v, h_v, by rw [if_neg h_other], h_admin⟩
  | createRole role _ eq =>
    subst eq
    exact ⟨row', h_row', rfl, h_admin⟩
  | updateRole next _ _ eq =>
    subst eq
    exact ⟨row', h_row', rfl, h_admin⟩
  | removeRole id _ eq =>
    subst eq
    obtain ⟨v, h_v, rfl⟩ := List.mem_map.mp h_row'
    exact ⟨v, h_v, rfl, h_admin⟩

/-- An admin's record stays, up to a role that is removed for everybody. -/
theorem admin_record (h_wf : t.WF) (h : Write t actor op t') {row : UserRow}
    (h_row : row ∈ t.users) (h_admin : row.isAdmin = true) :
    row ∈ t'.users ∨ ∃ id, op = .removeRole id ∧
      { row with roles := row.roles.filter (· ≠ id) } ∈ t'.users := by
  cases h with
  | createUser user roles _ _ _ _ eq =>
    subst eq
    exact .inl (List.mem_append_left _ h_row)
  | updateUser old user roles h_old h_id h_not _ _ _ eq =>
    subst eq
    refine .inl (List.mem_map.mpr ⟨row, h_row, if_neg fun h_self => ?_⟩)
    -- the account that was updated is no admin
    have h_same : row = old :=
      List.inj_on_of_nodup_map h_wf.userIds h_row h_old (h_self.trans h_id)
    rw [h_same, h_not] at h_admin
    cases h_admin
  | createRole role _ eq =>
    subst eq
    exact .inl h_row
  | updateRole next _ _ eq =>
    subst eq
    exact .inl h_row
  | removeRole id h_op eq =>
    subst eq
    exact .inr ⟨id, h_op, List.mem_map.mpr ⟨row, h_row, rfl⟩⟩

end Write

/-! ## Every run -/

/-- A step of the non-admin `actor` gives nobody more than the actor holds, makes nobody an
    admin, and changes an admin's record only by taking out a role it removes. -/
structure NoEscalation (t t' : AccessTables) (actor : String) (op : Operation) : Prop where
  triple : ∀ id area level server, t'.holds id area level server →
    t.holds id area level server ∨ t.holds actor area level server
  level : ∀ id area level, t'.holdsLevel id area level →
    t.holdsLevel id area level ∨ t.holdsLevel actor area level
  admins : ∀ row' ∈ t'.users, row'.isAdmin = true →
    ∃ row ∈ t.users, row.id = row'.id ∧ row.isAdmin = true
  adminRecord : ∀ row ∈ t.users, row.isAdmin = true → row ∈ t'.users ∨
    ∃ id, op = .removeRole id ∧ { row with roles := row.roles.filter (· ≠ id) } ∈ t'.users

theorem NoEscalation.refl (t : AccessTables) (actor : String) (op : Operation) :
    NoEscalation t t actor op where
  triple _ _ _ _ h := .inl h
  level _ _ _ h := .inl h
  admins row h_row h_admin := ⟨row, h_row, rfl, h_admin⟩
  adminRecord _ h_row _ := .inl h_row

/-- What a step is: nothing, or the write of an accepted request of a non-admin. -/
theorem step_cases {t t' : AccessTables} {actor : String} {op : Operation}
    (h : step t (actor, op) = some t') :
    t' = t ∨ ∃ user, t.findById actor = some user ∧ user.isAdmin = false ∧
      Write t user.toAccessSubject op t' := by
  simp only [step] at h
  split at h
  · cases h
  · rename_i user h_user
    split at h
    · cases h
    · rename_i h_admin
      have h_actor : user.isAdmin = false := by simpa using h_admin
      split at h
      · rename_i t₁ events h_ok
        cases h
        exact .inr ⟨user, h_user, h_actor, .of_perform h_actor h_ok⟩
      · cases h
        exact .inl rfl

theorem noEscalation_step {t t' : AccessTables} {actor : String} {op : Operation} (h_wf : t.WF)
    (h : step t (actor, op) = some t') : NoEscalation t t' actor op := by
  rcases step_cases h with rfl | ⟨user, h_user, h_actor, h_write⟩
  · exact .refl t' actor op
  refine ⟨?_, ?_, fun row h_row h_admin => h_write.no_new_admin h_row h_admin,
    fun row h_row h_admin => h_write.admin_record h_wf h_row h_admin⟩
  · rintro id area level server ⟨u', h_u', h_can⟩
    rcases (h_write.gained h_wf h_actor h_u').triple area level server h_can with
      ⟨o, h_o, h_old⟩ | h_actor
    · obtain ⟨u, h_u, rfl⟩ := Option.map_eq_some_iff.mp h_o
      exact .inl ⟨u, h_u, h_old⟩
    · exact .inr ⟨user, h_user, h_actor⟩
  · rintro id area level ⟨u', h_u', h_can⟩
    rcases (h_write.gained h_wf h_actor h_u').level area level h_can with
      ⟨o, h_o, h_old⟩ | h_actor
    · obtain ⟨u, h_u, rfl⟩ := Option.map_eq_some_iff.mp h_o
      exact .inl ⟨u, h_u, h_old⟩
    · exact .inr ⟨user, h_user, h_actor⟩

/-- The keys of the tables hold in every state of a run. -/
theorem wf_of_reachable {t : AccessTables} (h : machine.Reachable t) : t.WF := by
  refine Machine.Reachable.invariant (fun _ h => h) ?_ h
  rintro s ⟨actor, op⟩ s' h_wf h_step
  rcases step_cases h_step with rfl | ⟨_, -, -, h_write⟩
  · exact h_wf
  · exact h_write.wf h_wf

/-- An administrator and a manager without a server list; the administrator also has the
    role of the chat team. -/
def chatTeam : AccessTables where
  users :=
    [{ id := "root", username := "root", password := "", isAdmin := true, roles := ["chat"],
       grants := .empty, extPermissions := [], serversRestrict := ⟨false, []⟩ },
     { id := "m", username := "manager", password := "", isAdmin := false, roles := [],
       grants := (JsObject.empty.set .accounts .manage).set .console .write,
       extPermissions := [], serversRestrict := ⟨false, []⟩ }]
  roles :=
    [{ id := "chat", name := "Chat", description := none, builtinKey := none,
       grants := JsObject.empty.set .console .read, ext := [] }]
  servers := ["s"]

theorem chatTeam_wf : chatTeam.WF := by
  constructor <;> simp [chatTeam]

/-- The manager gives a new account the chat role. -/
def hireChatter : Operation :=
  .createAccount { username := "chatter", roles := ["chat"] } "c" "hash"

end Kubek.Access
