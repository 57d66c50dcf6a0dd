/-
  Kubek.Access.Operations

  The five kinds of requests that change accounts and roles (accounts.controller.ts
  `createAccount` and `updateAccount`, roles.service.ts `create`, `update`, `duplicate`
  and `remove`), each as one step over the tables. A refused request throws before its
  write; a write that fails is rolled back.

  `hash` is what `hashPassword` returned, `newId` what `randomUUID` returned.
-/

import Kubek.Access.Store
import Kubek.Lib.Fallible
import Kubek.Lib.JsText
import Kubek.Lib.Machine

namespace Kubek.Access

open Fallible JsMap JsText Transition

/-- The exceptions a request ends with, by status. -/
inductive HttpError
  | forbidden (code message : String)
  | badRequest (code : Option String) (message : String)
  | notFound (message : String)
  | conflict (code message : String)
  | internal (cause : SqliteError)
  deriving DecidableEq, Repr

/-- What the rest of the panel is told. -/
inductive AppEvent
  | accessChanged (userId : String)
  /-- `revokeAllForUser`; the actor's own session stays when it changed itself. -/
  | sessionsRevoked (userId : String) (keepCurrent : Bool)
  deriving DecidableEq, Repr

abbrev Outcome := Except HttpError (AccessTables × List AppEvent)

/-- `enforcePolicy`. -/
def enforce : PolicyVerdict → Except HttpError Unit
  | none => .ok ()
  | some message => .error (.forbidden "ACCESS_ESCALATION" message)

/-- A check of the request itself. -/
def refuseIf (refused : Bool) (error : HttpError) : Except HttpError Unit :=
  if refused then .error error else .ok ()

/-- The statement of a repository, its error as a failed request. -/
def runSql (r : Except SqliteError AccessTables) : Except HttpError AccessTables :=
  match r with
  | .ok t => .ok t
  | .error e => .error (.internal e)

/-! ## RolesService -/

structure RoleInput where
  name : Option String := none
  /-- `undefined`, `null` or a text. -/
  description : Option (Option String) := none
  grants : Option AccessMap := none
  ext : Option (List String) := none

/-- `text?.trim() || null`. -/
def textOrNull (text : Option String) : Option String :=
  match text with
  | none => none
  | some s => if (trim s).isEmpty then none else some (trim s)

namespace AccessTables

variable (t : AccessTables)

/-- `resolve`: roles for the ids in the same order. -/
def resolve (ids : List RoleId) : Except HttpError (List Role) :=
  (unique ids).mapM fun id =>
    match t.findRoleById id with
    | some role => .ok role
    | none => .error (.badRequest (some "ROLE_UNKNOWN") ("Role " ++ id ++ " does not exist"))

/-- `find`. -/
def findRole (id : RoleId) : Except HttpError Role :=
  match t.findRoleById id with
  | some role => .ok role
  | none => .error (.notFound "Role not found")

/-- `members`: accounts holding the role. -/
def members (id : RoleId) : List User := (t.memberIds id).filterMap t.findById

/-- `freeName`: names are unique regardless of case. -/
def freeName (name : String) (selfId : Option RoleId) : Except HttpError String :=
  match t.findRoleByName name with
  | none => .ok name
  | some other =>
      if some other.id = selfId then .ok name
      else .error (.conflict "ROLE_NAME_TAKEN" ("Role \"" ++ name ++ "\" already exists"))

/-- The candidates of `copyName`, in order. -/
def copyCandidate (name : String) (n : Nat) : String :=
  if n = 0 then name ++ " (copy)" else name ++ " (copy " ++ toString (n + 1) ++ ")"

/-- `copyName`: the first candidate no role has. Each one it passes over is the name of
    another role, so it is among the first `roles.length + 1`. -/
def copyName (name : String) : String :=
  let candidates := (List.range (t.roles.length + 1)).map (copyCandidate name)
  (candidates.find? fun candidate => (t.findRoleByName candidate).isNone).getD
    (copyCandidate name (t.roles.length + 1))

/-- `RolesService.create`. -/
def createRoleFor (actor : User) (name : String) (input : RoleInput) (newId : RoleId) :
    Outcome := do
  let name ← t.freeName (trim name) none
  let role : Role :=
    { id := newId
      name := name
      description := textOrNull (input.description.getD none)
      builtinKey := none
      grants := input.grants.getD .empty
      ext := unique (input.ext.getD []) }
  enforce (canUseRole actor.toAccessSubject role)
  let t' ← runSql (t.createRole role)
  return (t', [])

/-- `RolesService.update`. -/
def updateRoleFor (actor : User) (id : RoleId) (input : RoleInput) : Outcome := do
  let before ← t.findRole id
  enforce (canUseRole actor.toAccessSubject before)
  let members := t.members id
  enforce (canChangeRoleMembers actor.toAccessSubject members)
  let name := (input.name.map trim).getD before.name
  refuseIf (before.builtinKey.isSome && name != before.name)
    (.badRequest (some "ROLE_BUILTIN") "Built-in roles can't be renamed")
  let name ← t.freeName name (some id)
  let next : Role :=
    { before with
      name := name
      description :=
        match input.description with
        | none => before.description
        | some text => textOrNull text
      grants := input.grants.getD before.grants
      ext := (input.ext.map unique).getD before.ext }
  enforce (canUseRole actor.toAccessSubject next)
  let t' ← runSql (t.updateRole next)
  let changed := input.grants.isSome || input.ext.isSome
  return (t', if changed then members.map fun m => .accessChanged m.id else [])

/-- `RolesService.remove`. -/
def removeRoleFor (actor : User) (id : RoleId) : Outcome := do
  let role ← t.findRole id
  refuseIf role.builtinKey.isSome
    (.badRequest (some "ROLE_BUILTIN") "Built-in roles can't be deleted")
  enforce (canUseRole actor.toAccessSubject role)
  let members := t.members id
  enforce (canChangeRoleMembers actor.toAccessSubject members)
  return (t.deleteRole id, members.map fun m => .accessChanged m.id)

/-- `RolesService.duplicate`. -/
def duplicateRoleFor (actor : User) (id : RoleId) (name : Option String) (newId : RoleId) :
    Outcome := do
  let source ← t.findRole id
  t.createRoleFor actor ((textOrNull name).getD (t.copyName source.name))
    { description := some source.description
      grants := some source.grants
      ext := some source.ext } newId

end AccessTables

/-! ## AccountsController -/

/-- `CreateAccountDto`; a missing list is empty. -/
structure CreateAccountDto where
  username : String
  servers : List ServerId := []
  roles : List RoleId := []
  grants : AccessMap := .empty
  extPermissions : List String := []

/-- `UpdateAccountDto`; `password` only says whether one was sent. -/
structure UpdateAccountDto where
  username : Option String := none
  password : Bool := false
  roles : Option (List RoleId) := none
  grants : Option AccessMap := none
  extPermissions : Option (List String) := none
  serversRestrict : Option UserServersRestrict := none
  isAdmin : Option Bool := none

namespace AccessTables

variable (t : AccessTables)

/-- `createAccount`, with `AccountsService.create`. -/
def createAccount (actor : User) (body : CreateAccountDto) (newId hash : String) : Outcome := do
  let restrict : UserServersRestrict := { enabled := !body.servers.isEmpty, allowed := body.servers }
  let roles ← t.resolve body.roles
  enforce (canGrant actor.toAccessSubject
    { roles := roles, grants := body.grants, extPermissions := body.extPermissions,
      serversRestrict := restrict })
  refuseIf (t.findByUsername body.username).isSome
    (.badRequest none "Username already exists")
  let t' ← runSql (t.createUser
    { id := newId, username := body.username, password := hash, isAdmin := false
      roles := body.roles, grants := body.grants, extPermissions := body.extPermissions
      access := { levels := .empty, ext := [] }, serversRestrict := restrict })
  return (t', [])

/-- The plan `updateAccount` asks the policy about. -/
def planOf (roles : List Role) (user : User) : AccessPlan where
  roles := roles
  grants := user.grants
  extPermissions := user.extPermissions
  serversRestrict := user.serversRestrict

/-- The account as `updateAccount` is about to store it, its access still the old one. -/
def merged (actor user : User) (dto : UpdateAccountDto) (hash : String) : User :=
  { user with
    username := dto.username.getD user.username
    roles := (dto.roles.map unique).getD user.roles
    grants := dto.grants.getD user.grants
    extPermissions := (dto.extPermissions.map unique).getD user.extPermissions
    serversRestrict := dto.serversRestrict.getD user.serversRestrict
    password := if dto.password then hash else user.password
    -- Only admins may grant/revoke admin rights
    isAdmin := if actor.isAdmin then dto.isAdmin.getD user.isAdmin else user.isAdmin }

/-- The account with the access its new roles and grants give. -/
def withAccess (roles : List Role) (user : User) : User :=
  { user with access := effectiveAccess roles user.grants user.extPermissions }

/-- `findByUsername` of the controller, a 404 when there is no such account. -/
def findAccount (username : String) : Except HttpError User :=
  match t.findByUsername username with
  | some user => .ok user
  | none => .error (.notFound "Account does not exist")

/-- `updateAccount`, with `AccountsService.update`. -/
def updateAccount (actor : User) (username : String) (dto : UpdateAccountDto) (hash : String) :
    Outcome := do
  let user ← t.findAccount username
  enforce (canManageAccount actor.toAccessSubject user)
  let updated := merged actor user dto hash
  let roles ← t.resolve updated.roles
  let updated := withAccess roles updated
  enforce (canGrant actor.toAccessSubject (planOf roles updated))
  refuseIf (t.findById updated.id).isNone (.notFound "User not found")
  let t' ← runSql (t.updateUser updated)
  let revoked : List AppEvent :=
    if needsSessionRevoke user updated then [.sessionsRevoked user.id (actor.id == user.id)] else []
  let changed : List AppEvent := if accessChanged user updated then [.accessChanged user.id] else []
  return (t', revoked ++ changed)

end AccessTables

/-! ## Runs -/

/-- The requests of one actor. -/
inductive Operation
  | createAccount (body : CreateAccountDto) (newId hash : String)
  | updateAccount (username : String) (dto : UpdateAccountDto) (hash : String)
  | createRole (name : String) (input : RoleInput) (newId : RoleId)
  | updateRole (id : RoleId) (input : RoleInput)
  | duplicateRole (id : RoleId) (name : Option String) (newId : RoleId)
  | removeRole (id : RoleId)

def perform (t : AccessTables) (actor : User) : Operation → Outcome
  | .createAccount body newId hash => t.createAccount actor body newId hash
  | .updateAccount username dto hash => t.updateAccount actor username dto hash
  | .createRole name input newId => t.createRoleFor actor name input newId
  | .updateRole id input => t.updateRoleFor actor id input
  | .duplicateRole id name newId => t.duplicateRoleFor actor id name newId
  | .removeRole id => t.removeRoleFor actor id

/-- A request of the non-admin account `actor`, as it is stored at that moment. A refused
    request changes nothing. -/
def step (t : AccessTables) (e : String × Operation) : Option AccessTables :=
  match t.findById e.1 with
  | none => none
  | some actor =>
      if actor.isAdmin then none
      else
        match perform t actor e.2 with
        | .ok (t', _) => some t'
        | .error _ => some t

/-- Runs of requests by non-admin actors over any stored accounts and roles. -/
def machine : Machine AccessTables (String × Operation) where
  init t := t.WF
  step := step

/-! ## Inversion -/

theorem enforce_eq_ok {v : PolicyVerdict} {u : Unit} : enforce v = .ok u ↔ v = none := by
  cases v <;> simp [enforce]

theorem refuseIf_eq_ok {refused : Bool} {error : HttpError} {u : Unit} :
    refuseIf refused error = .ok u ↔ refused = false := by
  cases refused <;> simp [refuseIf]

theorem findAccount_eq_ok {t : AccessTables} {username : String} {user : User} :
    t.findAccount username = .ok user ↔ t.findByUsername username = some user := by
  simp only [AccessTables.findAccount]
  split <;> simp_all

theorem findRole_eq_ok {t : AccessTables} {id : RoleId} {role : Role} :
    t.findRole id = .ok role ↔ t.findRoleById id = some role := by
  simp only [AccessTables.findRole]
  split <;> simp_all

/-- A free name is the name that was asked about. -/
theorem freeName_eq_ok {t : AccessTables} {name name' : String} {selfId : Option RoleId}
    (h : t.freeName name selfId = .ok name') : name' = name := by
  simp only [AccessTables.freeName] at h
  split at h
  · cases h
    rfl
  · split at h
    · cases h
      rfl
    · cases h

theorem runSql_eq_ok {r : Except SqliteError AccessTables} {t : AccessTables} :
    runSql r = .ok t ↔ r = .ok t := by
  cases r <;> simp [runSql]

theorem updateUser_eq_ok {t t' : AccessTables} {user : User} (h : t.updateUser user = .ok t') :
    t' = { t with users := t.users.map fun u => if u.id = user.id then t.userRow user else u } := by
  simp only [AccessTables.updateUser] at h
  split at h
  · cases h
  · cases h
    rfl

end Kubek.Access
