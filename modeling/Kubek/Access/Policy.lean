/-
  Kubek.Access.Policy

  Who may give what to whom (accounts.policy.ts). A verdict is the text of the
  refusal, `none` when the operation is allowed.
-/

import Kubek.Access.Areas

namespace Kubek.Access

open JsMap

abbrev RoleId := String

/-- `IRole`, without its time stamps. -/
structure Role where
  id : RoleId
  name : String
  description : Option String
  builtinKey : Option String
  grants : AccessMap
  ext : List String

/-- `IUser`, its access fields and what names and protects the account. -/
structure User extends AccessSubject where
  id : String
  username : String
  password : String
  roles : List RoleId
  grants : AccessMap
  extPermissions : List String

/-- `AccessPlan`: what an account ends up with after a create or update. -/
structure AccessPlan where
  roles : List Role
  grants : AccessMap
  extPermissions : List String
  serversRestrict : UserServersRestrict

/-- `PolicyVerdict`: reason it is not allowed. -/
abbrev PolicyVerdict := Option String

/-- `effectiveAccess`: the same merge the users repository does on read. -/
def effectiveAccess (roles : List Role) (grants : AccessMap) (extPermissions : List String) :
    UserAccess where
  levels := mergeAccess (roles.map (·.grants) ++ [grants])
  ext := unique (roles.flatMap (·.ext) ++ extPermissions)

/-- `accessAbove`: levels and keys of `access` the actor does not have itself. -/
def accessAbove (actor : AccessSubject) (access : UserAccess) : List String :=
  if actor.isAdmin then []
  else
    ((access.levels.entries.filter fun e =>
        !levelAtLeast (actor.access.levels.get e.1) e.2).map fun e =>
        e.1.text ++ " " ++ e.2.text) ++
      access.ext.filter fun key => !actor.access.ext.contains key

/-- A list of offending items makes a refusal. -/
def refuseAll (reason : String) (items : List String) : PolicyVerdict :=
  match items with
  | [] => none
  | _ :: _ => some (reason ++ ", ".intercalate items)

/-- `canUseRole`: roles are created, edited and given only within the actor's own access. -/
def canUseRole (actor : AccessSubject) (role : Role) : PolicyVerdict :=
  refuseAll "Role gives access above yours: "
    (accessAbove actor { levels := role.grants, ext := role.ext })

/-- `canReachServers`: taking over an account gives its levels on every server it sees. -/
def canReachServers (actor : AccessSubject) (isAdmin : Bool)
    (serversRestrict : UserServersRestrict) : PolicyVerdict :=
  if seesAllServers actor.isAdmin actor.serversRestrict then none
  else if seesAllServers isAdmin serversRestrict then some "Account can access all servers"
  else
    refuseAll "Account can access servers you can't: "
      (serversRestrict.allowed.filter fun id => !actor.serversRestrict.allowed.contains id)

/-- `canManageAccount`: admins only by admins, others only within your access and servers. -/
def canManageAccount (actor : AccessSubject) (target : User) : PolicyVerdict :=
  if target.isAdmin && !actor.isAdmin then some "Only admins can manage admin accounts"
  else
    match refuseAll "Account has access above yours: " (accessAbove actor target.access) with
    | some reason => some reason
    | none => canReachServers actor target.isAdmin target.serversRestrict

/-- `canChangeRoleMembers`: a restricted actor cannot change a role used outside its
    servers. -/
def canChangeRoleMembers (actor : AccessSubject) (members : List User) : PolicyVerdict :=
  refuseAll "Role has members outside your servers: "
    ((members.filter fun m =>
      (canReachServers actor m.isAdmin m.serversRestrict).isSome).map (·.username))

/-- `serversWithin`: restricted users cannot give access to servers they cannot see. -/
def serversWithin (own restrict : UserServersRestrict) : PolicyVerdict :=
  if !restrict.enabled then some "Can't give access to all servers"
  else
    refuseAll "Can't give access to servers you can't access: "
      (restrict.allowed.filter fun id => !own.allowed.contains id)

/-- The loop of `canGrant` over the roles of the plan. -/
def canAssignRole (actor : AccessSubject) (role : Role) : PolicyVerdict :=
  refuseAll ("Can't assign role \"" ++ role.name ++ "\" above your access: ")
    (accessAbove actor { levels := role.grants, ext := role.ext })

/-- `canGrant`: non-admins can only give access and servers they have themselves. -/
def canGrant (actor : AccessSubject) (next : AccessPlan) : PolicyVerdict :=
  if actor.isAdmin then none
  else
    match next.roles.findSome? (canAssignRole actor) with
    | some reason => some reason
    | none =>
        match refuseAll "Can't give access you don't have: "
            (accessAbove actor (effectiveAccess next.roles next.grants next.extPermissions)) with
        | some reason => some reason
        | none =>
            if seesAllServers actor.isAdmin actor.serversRestrict then none
            else serversWithin actor.serversRestrict next.serversRestrict

/-! ## What a change of an account is -/

def sameSet (a b : List String) : Bool :=
  a.length == b.length && a.all b.contains

/-- Every area of either map has the same level in both. -/
def sameGrants (a b : AccessMap) : Bool :=
  (unique (a.entries.map Prod.fst ++ b.entries.map Prod.fst)).all fun area =>
    a.get area == b.get area

def sameRestrict (a b : UserServersRestrict) : Bool :=
  a.enabled == b.enabled && a.allowed.length == b.allowed.length &&
    a.allowed.all b.allowed.contains

/-- `accessChanged`: admin flag, roles, levels or servers changed. -/
def accessChanged (before after : User) : Bool :=
  before.isAdmin != after.isAdmin || !sameSet before.roles after.roles ||
    !sameGrants before.grants after.grants ||
    !sameSet before.extPermissions after.extPermissions ||
    !sameRestrict before.serversRestrict after.serversRestrict

/-- `needsSessionRevoke`: password or access changed, old sessions have to go. -/
def needsSessionRevoke (before after : User) : Bool :=
  before.password != after.password || accessChanged before after

/-! ## What the verdicts guarantee -/

theorem refuseAll_eq_none {reason : String} {items : List String} :
    refuseAll reason items = none ↔ items = [] := by
  cases items <;> simp [refuseAll]

/-- Two levels in a row: who holds the higher one holds the lower one. -/
theorem levelAtLeast_trans {own : Option AccessLevel} {level needed : AccessLevel}
    (h_own : levelAtLeast own level = true) (h : levelAtLeast (some level) needed = true) :
    levelAtLeast own needed = true := by
  cases own with
  | none => cases h_own
  | some l =>
    simp only [levelAtLeast, decide_eq_true_eq] at h_own h ⊢
    omega

/-- Nothing above a non-admin actor: every level granted is one it holds. -/
theorem level_of_accessAbove_nil {actor : AccessSubject} {access : UserAccess}
    (h_admin : actor.isAdmin = false) (h : accessAbove actor access = []) {area : AccessArea}
    {needed : AccessLevel} (h_level : levelAtLeast (access.levels.get area) needed = true) :
    levelAtLeast (actor.access.levels.get area) needed = true := by
  obtain ⟨level, h_mem, h_needed⟩ := (levelAtLeast_get_iff _ _ _).mp h_level
  simp only [accessAbove, h_admin, Bool.false_eq_true, if_false, List.append_eq_nil_iff,
    List.map_eq_nil_iff] at h
  have h_held : levelAtLeast (actor.access.levels.get area) level = true := by
    by_contra h_not
    have h_bad := List.filter_eq_nil_iff.mp h.1 (area, level) h_mem
    exact h_bad (by simpa using h_not)
  exact levelAtLeast_trans h_held h_needed

/-- A restricted actor that may reach an account's servers sees each of them. -/
theorem reach_of_canReachServers {actor target : AccessSubject}
    (h : canReachServers actor target.isAdmin target.serversRestrict = none) {server : ServerId}
    (h_reach : reachesServer target server = true) : reachesServer actor server = true := by
  by_cases h_all : seesAllServers actor.isAdmin actor.serversRestrict = true
  · simp only [seesAllServers] at h_all
    simp [reachesServer, h_all]
  · simp only [canReachServers, h_all, Bool.false_eq_true, if_false] at h
    split at h
    · cases h
    · rename_i h_target
      rw [refuseAll_eq_none] at h
      simp only [seesAllServers] at h_target
      simp only [reachesServer, h_target, Bool.false_eq_true, if_false] at h_reach
      have h_mine := List.filter_eq_nil_iff.mp h server (by simpa using h_reach)
      simp only [reachesServer]
      split
      · rfl
      · simpa using h_mine

/-- What `canGrant` lets a non-admin give, in levels. -/
theorem level_of_canGrant {actor : AccessSubject} {plan : AccessPlan}
    (h_admin : actor.isAdmin = false) (h : canGrant actor plan = none) {area : AccessArea}
    {needed : AccessLevel}
    (h_level : levelAtLeast
      ((effectiveAccess plan.roles plan.grants plan.extPermissions).levels.get area) needed =
        true) :
    levelAtLeast (actor.access.levels.get area) needed = true := by
  simp only [canGrant, h_admin, Bool.false_eq_true, if_false] at h
  split at h
  · cases h
  split at h
  · cases h
  · rename_i h_above
    exact level_of_accessAbove_nil h_admin (refuseAll_eq_none.mp h_above) h_level

/-- What `canGrant` lets a non-admin give, in servers. -/
theorem reach_of_canGrant {actor : AccessSubject} {plan : AccessPlan}
    (h_admin : actor.isAdmin = false) (h : canGrant actor plan = none) {server : ServerId}
    (h_reach : plan.serversRestrict.enabled = true → server ∈ plan.serversRestrict.allowed) :
    reachesServer actor server = true := by
  by_cases h_all : seesAllServers actor.isAdmin actor.serversRestrict = true
  · simp only [seesAllServers] at h_all
    simp [reachesServer, h_all]
  · simp only [canGrant, h_admin, Bool.false_eq_true, if_false] at h
    split at h
    · cases h
    split at h
    · cases h
    rw [h_admin] at h_all
    rw [if_neg h_all, serversWithin] at h
    split at h
    · cases h
    · rename_i h_enabled
      have h_mem := h_reach (by simpa using h_enabled)
      have h_mine := List.filter_eq_nil_iff.mp (refuseAll_eq_none.mp h) server h_mem
      simp only [reachesServer]
      split
      · rfl
      · simpa using h_mine

end Kubek.Access
