/-
  Kubek.Access.AccountWrites

  The requests that load an account, wait, and write it back (accounts.controller.ts
  `updateAccount` and `changePassword`, the two-factor settings of twofa.service.ts and
  of account-preferences.controller.ts).

  A row of `users` has its access in `AccessTables` and its two-factor columns beside it.
  Every handler writes the whole account it loaded, with its own change in it: one that
  waits for bcrypt, or between its guard and its body, keeps the account as it was.
  Answers of bcrypt, of the rate limits and of the setup token come with the events; a
  request that is refused ends without a write.
-/

import Kubek.Access.Operations
import Kubek.Lib.Suspended

namespace Kubek.Access

open Fallible JsMap Transition

inductive TwoFactorMethod
  | totp
  | telegram
  deriving DecidableEq, Repr

/-- The two-factor columns of `users`. -/
structure TwofaColumns where
  totpSecret : Option String
  telegram2faEnabled : Bool
  twofaPrimary : Option TwoFactorMethod
  deriving DecidableEq, Repr

/-- `IUser` with its two-factor settings. -/
structure Account extends User where
  totpSecret : Option String
  totpEnabled : Bool
  telegram2faEnabled : Bool
  twofaPrimary : Option TwoFactorMethod

/-- TOTP counts as enabled exactly while a secret is stored. -/
def Account.columns (account : Account) : TwofaColumns where
  totpSecret := if account.totpEnabled then account.totpSecret else none
  telegram2faEnabled := account.telegram2faEnabled
  twofaPrimary := account.twofaPrimary

/-- The tables with the two-factor columns of every account. -/
structure Accounts where
  tables : AccessTables
  twofa : String → TwofaColumns

namespace Accounts

variable (s : Accounts)

def deserialize (user : User) : Account :=
  let row := s.twofa user.id
  { user with
    totpSecret := row.totpSecret
    totpEnabled := row.totpSecret.getD "" != ""
    telegram2faEnabled := row.telegram2faEnabled
    twofaPrimary := row.twofaPrimary }

def findById (id : String) : Option Account := (s.tables.findById id).map s.deserialize

def findByUsername (username : String) : Option Account :=
  (s.tables.findByUsername username).map s.deserialize

/-- `AccountsService.update`, with `UsersRepository.update`. -/
def update (account : Account) : Except HttpError Accounts := do
  refuseIf (s.findById account.id).isNone (.notFound "User not found")
  let tables ← runSql (s.tables.updateUser account.toUser)
  return { tables := tables, twofa := Function.update s.twofa account.id account.columns }

/-! ## Handlers -/

/-- How `updateAccount` and `changePassword` begin. -/
def loadManaged (actor : User) (username : String) : Except HttpError Account := do
  match s.findByUsername username with
  | none => .error (.notFound "Account does not exist")
  | some user =>
      enforce (canManageAccount actor.toAccessSubject user.toUser)
      return user

/-- `updateAccount` from its hash on. -/
def storeUpdate (actor : User) (user : Account) (dto : UpdateAccountDto) (hash : String) :
    Except HttpError Accounts := do
  let updated := AccessTables.merged actor user.toUser dto hash
  let roles ← s.tables.resolve updated.roles
  let updated := AccessTables.withAccess roles updated
  enforce (canGrant actor.toAccessSubject (AccessTables.planOf roles updated))
  s.update { user with toUser := updated }

/-- The end of `changePassword`. -/
def storePassword (user : Account) (hash : String) : Except HttpError Accounts :=
  s.update { user with password := hash }

end Accounts

/-- A change of the two-factor settings. -/
inductive TwofaChange
  | confirmTotp (secret : String)
  | disableTotp
  | enableTelegram
  | disableTelegram
  | primary (method : Option TwoFactorMethod)
  deriving DecidableEq, Repr

/-- The account a change is about to store. -/
def TwofaChange.applyTo (user : Account) : TwofaChange → Except HttpError Account
  | .confirmTotp secret =>
      .ok { user with
        totpSecret := some secret
        totpEnabled := true
        twofaPrimary := user.twofaPrimary.or (some .totp) }
  | .disableTotp =>
      .ok { user with
        totpSecret := none
        totpEnabled := false
        twofaPrimary :=
          if user.twofaPrimary = some .totp then
            if user.telegram2faEnabled then some .telegram else none
          else user.twofaPrimary }
  | .enableTelegram =>
      .ok { user with
        telegram2faEnabled := true
        twofaPrimary := user.twofaPrimary.or (some .telegram) }
  | .disableTelegram =>
      .ok { user with
        telegram2faEnabled := false
        twofaPrimary :=
          if user.twofaPrimary = some .telegram then
            if user.totpEnabled then some .totp else none
          else user.twofaPrimary }
  | .primary method =>
      if method = some .totp ∧ user.totpEnabled = false then
        .error (.badRequest none "TOTP is not enabled")
      else if method = some .telegram ∧ user.telegram2faEnabled = false then
        .error (.badRequest none "Telegram 2FA is not enabled")
      else .ok { user with twofaPrimary := method }

/-! ## Runs -/

/-- A request at one of its awaits, with the account it loaded. -/
inductive Call
  /-- `updateAccount`, before its hash. -/
  | hashing (actor : User) (user : Account) (dto : UpdateAccountDto)
  /-- `changePassword`, before its password is compared. -/
  | comparing (user : Account)
  | rehashing (user : Account)
  /-- A change of the two-factor settings, past its guard. -/
  | entering (user : Account) (change : TwofaChange)
  /-- `disableTotp`, before its password is compared. -/
  | rechecking (user : Account)
  | finished

structure State where
  accounts : Accounts
  calls : List Call

inductive Event
  | updateAccount (actor : User) (username : String) (dto : UpdateAccountDto)
  | changePassword (actor : User) (username : String)
  /-- The guard of a request about the account's own two-factor settings. -/
  | changeTwofa (id : String) (change : TwofaChange)
  /-- The body begins; `accepted` is what it asks of codes, tokens and Telegram. -/
  | handle (i : Nat) (accepted : Bool)
  | compared (i : Nat) (equal : Bool)
  | hashed (i : Nat) (hash : String)

namespace State

variable (s : State)

def call (i : Nat) : Call := Suspended.get .finished s.calls i

def await (c : Call) : State := { s with calls := s.calls ++ [c] }

def goOn (i : Nat) (c : Call) : State := { s with calls := s.calls.set i c }

/-- A handler's write; one that throws leaves the tables. -/
def stored (result : Except HttpError Accounts) : State :=
  match result with
  | .ok accounts => { s with accounts := accounts }
  | .error _ => s

/-- A change of the two-factor settings that has passed its checks. -/
def storeTwofa (user : Account) (change : TwofaChange) : State :=
  match change.applyTo user with
  | .ok account => s.stored (s.accounts.update account)
  | .error _ => s

def step : Event → Option State
  | .updateAccount actor username dto =>
      match s.accounts.loadManaged actor username with
      | .error _ => some s
      | .ok user =>
          if dto.password then some (s.await (.hashing actor user dto))
          else some (s.stored (s.accounts.storeUpdate actor user dto ""))
  | .changePassword actor username =>
      match s.accounts.loadManaged actor username with
      | .error _ => some s
      | .ok user => some (s.await (.comparing user))
  | .changeTwofa id change =>
      match s.accounts.findById id with
      | none => none
      | some user => some (s.await (.entering user change))
  | .handle i accepted =>
      match s.call i with
      | .entering user change =>
          if accepted = false then some (s.goOn i .finished)
          else if change = .disableTotp then some (s.goOn i (.rechecking user))
          else some ((s.goOn i .finished).storeTwofa user change)
      | _ => none
  | .compared i equal =>
      match s.call i with
      | .comparing user => some (s.goOn i (if equal then .rehashing user else .finished))
      | .rechecking user =>
          if equal then some ((s.goOn i .finished).storeTwofa user .disableTotp)
          else some (s.goOn i .finished)
      | _ => none
  | .hashed i hash =>
      match s.call i with
      | .hashing actor user dto =>
          some ((s.goOn i .finished).stored (s.accounts.storeUpdate actor user dto hash))
      | .rehashing user => some ((s.goOn i .finished).stored (s.accounts.storePassword user hash))
      | _ => none

end State

/-- Runs that go on from a state. -/
def runsFrom (s : State) : Machine State Event where
  init t := t = s
  step := State.step

/-! ## One handler at a time -/

section Handlers

variable {s s' : Accounts} {actor : User} {user : Account} {dto : UpdateAccountDto} {hash : String}

theorem loadManaged_eq_ok {username : String} :
    s.loadManaged actor username = .ok user ↔
      ∃ stored, s.tables.findByUsername username = some stored ∧
        canManageAccount actor.toAccessSubject stored = none ∧ s.deserialize stored = user := by
  rw [Accounts.loadManaged, Accounts.findByUsername]
  cases s.tables.findByUsername username with
  | none => simp
  | some stored =>
    simp only [Option.map_some, bind_eq_ok, enforce_eq_ok, Option.some.injEq, exists_eq_left']
    show (∃ _, _ ∧ Except.ok (s.deserialize stored) = Except.ok user) ↔ _
    simp only [exists_const, Except.ok.injEq]
    rfl

theorem update_eq_ok {account : Account} :
    s.update account = .ok s' ↔
      ∃ tables, (s.tables.findById account.id).isSome ∧
        s.tables.updateUser account.toUser = .ok tables ∧
        s' = { tables := tables, twofa := Function.update s.twofa account.id account.columns } := by
  have h_found : (s.findById account.id).isNone = false ↔
      (s.tables.findById account.id).isSome = true := by
    rw [Accounts.findById, Option.isNone_map, ← Option.not_isSome, Bool.not_eq_false']
  simp only [Accounts.update, bind_eq_ok, refuseIf_eq_ok, runSql_eq_ok, h_found]
  constructor
  · rintro ⟨-, h_some, tables, h_tables, h_eq⟩
    exact ⟨tables, h_some, h_tables, (Except.ok.inj h_eq).symm⟩
  · rintro ⟨tables, h_some, h_tables, rfl⟩
    exact ⟨(), h_some, tables, h_tables, rfl⟩

theorem storeUpdate_eq_ok :
    s.storeUpdate actor user dto hash = .ok s' ↔
      ∃ roles, s.tables.resolve (AccessTables.merged actor user.toUser dto hash).roles = .ok roles ∧
        canGrant actor.toAccessSubject (AccessTables.planOf roles
          (AccessTables.withAccess roles (AccessTables.merged actor user.toUser dto hash))) = none ∧
        s.update { user with
          toUser := AccessTables.withAccess roles (AccessTables.merged actor user.toUser dto hash) }
            = .ok s' := by
  simp only [Accounts.storeUpdate, bind_eq_ok, enforce_eq_ok]
  constructor
  · rintro ⟨roles, h_roles, -, h_grant, h_update⟩
    exact ⟨roles, h_roles, h_grant, h_update⟩
  · rintro ⟨roles, h_roles, h_grant, h_update⟩
    exact ⟨roles, h_roles, (), h_grant, h_update⟩

/-- Without an await in it, `updateAccount` does to the access tables what the operation on
    them does. -/
theorem storeUpdate_tables {username : String} {t : AccessTables} :
    (∃ user s', s.loadManaged actor username = .ok user ∧
      s.storeUpdate actor user dto hash = .ok s' ∧ s'.tables = t) ↔
    ∃ events, s.tables.updateAccount actor username dto hash = .ok (t, events) := by
  simp only [loadManaged_eq_ok, storeUpdate_eq_ok, update_eq_ok, AccessTables.updateAccount,
    bind_eq_ok, enforce_eq_ok, refuseIf_eq_ok, runSql_eq_ok, findAccount_eq_ok]
  constructor
  · rintro ⟨_, _, ⟨stored, h_find, h_manage, rfl⟩, ⟨roles, h_roles, h_grant, tables, h_some,
      h_tables, rfl⟩, rfl⟩
    refine ⟨_, stored, h_find, (), h_manage, roles, h_roles, (), h_grant, (), ?_, tables,
      h_tables, rfl⟩
    rw [← Option.not_isSome, Bool.not_eq_false']
    exact h_some
  · rintro ⟨events, stored, h_find, -, h_manage, roles, h_roles, -, h_grant, -, h_some, tables,
      h_tables, h_eq⟩
    have h_t : tables = t := congrArg Prod.fst (Except.ok.inj h_eq)
    rw [← Option.not_isSome, Bool.not_eq_false'] at h_some
    exact ⟨_, _, ⟨stored, h_find, h_manage, rfl⟩, ⟨roles, h_roles, h_grant, tables, h_some,
      h_tables, rfl⟩, h_t⟩

end Handlers

end Kubek.Access
