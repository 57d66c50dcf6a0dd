/-
  Kubek.Twofa.Challenges

  The second step of a login (twofa.service.ts, auth-challenges.repository.ts): a challenge
  is started with one method, switched to another, answered with a code or in Telegram, and
  polled for its session.

  `auth_challenges` is a map by its primary key. Every handler runs in one piece and reads
  the clock once, but for `startChallenge`, which waits for Telegram to take the message
  while the message can already be answered. Accounts and linked Telegram users change at any
  time. `valid` is `verifySync`; answers of the rate limits, the message that was sent and the
  tokens of new sessions come with the events.
-/

import Kubek.Access.AccountWrites
import Kubek.Telegram.Linking

namespace Kubek.Twofa

open Access (Account TwoFactorMethod)
open KeyedRows (findBy)
open Telegram (ITelegramUser)
open Transition

/-! ## Tables -/

inductive AuthChallengeStatus
  | pending
  | approved
  | denied
  | expired
  | consumed
  deriving DecidableEq, Repr

def AuthChallengeStatus.text : AuthChallengeStatus → String
  | .pending => "pending"
  | .approved => "approved"
  | .denied => "denied"
  | .expired => "expired"
  | .consumed => "consumed"

/-- `IAuthChallenge`, a row of `auth_challenges`. -/
structure IAuthChallenge where
  id : String
  userId : String
  method : TwoFactorMethod
  status : AuthChallengeStatus
  tgChatId : Option Nat
  tgMessageId : Option Nat
  ip : Option String
  userAgent : Option String
  issuedToken : Option String
  createdAt : Nat
  expiresAt : Nat
  resolvedAt : Option Nat
  attempts : Nat
  deriving DecidableEq, Repr

def CHALLENGE_TTL_MS : Nat := 3 * 60 * 1000

def MAX_TOTP_ATTEMPTS : Nat := 5

/-- What happened to challenges; the panel reads none of it. -/
inductive Entry
  | wrongCode (id : String)
  /-- `verifyTotpChallenge` returned a session. -/
  | verified (id : String)
  /-- A session was created for `pollStatus` to hand over. -/
  | approved (challenge : IAuthChallenge) (telegramUser : ITelegramUser) (at_ : Nat)
  | denied (id : String)
  | expired (id : String)
  /-- `pollStatus` returned the session. -/
  | handedOver (id : String)
  deriving DecidableEq, Repr

/-- `startChallenge` at its await. -/
inductive Call
  | sending (challenge : IAuthChallenge)
  | finished
  deriving DecidableEq, Repr

structure Panel where
  now : Nat := 0
  challenges : String → Option IAuthChallenge := fun _ => none
  accounts : String → Option Account := fun _ => none
  telegramUsers : List ITelegramUser := []
  calls : List Call := []
  /-- Ids that `randomUUID` has returned. -/
  issued : List String := []
  log : List Entry := []

inductive ChallengeError
  | notFound (message : String)
  | badRequest (message : String)
  | unauthorized (code message : String) (attemptsLeft : Nat)
  | tooManyRequests
  deriving DecidableEq, Repr

namespace Panel

variable (p : Panel)

/-! ## The repository -/

def create (challenge : IAuthChallenge) : Panel :=
  { p with
    challenges := Function.update p.challenges challenge.id (some challenge)
    issued := challenge.id :: p.issued }

/-- `update` writes these columns of the row, where there is one. -/
def update (challenge : IAuthChallenge) : Panel :=
  { p with
    challenges := Function.update p.challenges challenge.id
      ((p.challenges challenge.id).map fun row =>
        { row with
          method := challenge.method
          status := challenge.status
          tgChatId := challenge.tgChatId
          tgMessageId := challenge.tgMessageId
          issuedToken := challenge.issuedToken
          resolvedAt := challenge.resolvedAt
          expiresAt := challenge.expiresAt
          attempts := challenge.attempts }) }

def delete (id : String) : Panel :=
  { p with challenges := Function.update p.challenges id none }

/-- The rows `deleteExpired` takes. -/
def isStale (challenge : IAuthChallenge) : Bool :=
  challenge.expiresAt < p.now ||
    ((challenge.status == .consumed || challenge.status == .denied) &&
      match challenge.resolvedAt with
      | none => false
      | some resolvedAt => resolvedAt < p.now - 60 * 60 * 1000)

def deleteExpired : Panel :=
  { p with challenges := fun id => (p.challenges id).filter fun c => !p.isStale c }

def record (entry : Entry) : Panel := { p with log := p.log ++ [entry] }

/-- The status is set, with the time. -/
def resolve (challenge : IAuthChallenge) (status : AuthChallengeStatus) (entry : Entry) : Panel :=
  (p.update { challenge with status := status, resolvedAt := some p.now }).record entry

/-! ## Handlers -/

def enabledMethods (user : Account) : List TwoFactorMethod :=
  (if user.totpEnabled then [.totp] else []) ++
    if user.telegram2faEnabled then [.telegram] else []

def requirePending (id : String) : Panel × Except ChallengeError IAuthChallenge :=
  match p.challenges id with
  | none => (p, .error (.notFound "Challenge not found"))
  | some c =>
      if c.status ≠ .pending then (p, .error (.badRequest ("Challenge is " ++ c.status.text)))
      else if c.expiresAt < p.now then
        (p.resolve c .expired (.expired c.id), .error (.badRequest "Challenge expired"))
      else (p, .ok c)

/-- `startChallenge` up to its await, and to its end where it has none. -/
def startChallenge (user : Account) (method : TwoFactorMethod) (ip userAgent : Option String)
    (newId : String) : Panel × Except ChallengeError IAuthChallenge :=
  if method ∉ enabledMethods user then
    (p, .error (.badRequest "2FA method is not enabled for this user"))
  else
    let challenge : IAuthChallenge :=
      { id := newId
        userId := user.id
        method := method
        status := .pending
        tgChatId := none
        tgMessageId := none
        ip := ip
        userAgent := userAgent
        issuedToken := none
        createdAt := p.now
        expiresAt := p.now + CHALLENGE_TTL_MS
        resolvedAt := none
        attempts := 0 }
    let p' := p.deleteExpired.create challenge
    match method with
    | .totp => (p', .ok challenge)
    | .telegram => ({ p' with calls := p'.calls ++ [.sending challenge] }, .ok challenge)

/-- `startChallenge` from its await on; without a message the challenge is deleted. -/
def finishStart (challenge : IAuthChallenge) (sent : Option (Nat × Nat)) : Panel :=
  match sent with
  | some (chatId, messageId) =>
      p.update { challenge with tgChatId := some chatId, tgMessageId := some messageId }
  | none => p.delete challenge.id

def switchChallenge (id : String) (method : TwoFactorMethod) (newId : String) :
    Panel × Except ChallengeError IAuthChallenge :=
  match p.requirePending id with
  | (p, .error e) => (p, .error e)
  | (p, .ok existing) =>
      match p.accounts existing.userId with
      | none => (p, .error (.notFound "User not found"))
      | some user =>
          if method ∉ enabledMethods user then
            (p, .error (.badRequest "2FA method is not enabled for this user"))
          else
            -- Mark old challenge as expired so it can't be reused
            (p.resolve existing .expired (.expired existing.id)).startChallenge user method
              existing.ip existing.userAgent newId

/-- `verifyTotpChallenge`; `limited` where the rate limit of the account is reached. -/
def verifyTotpChallenge (valid : Nat → String → String → Bool) (id code : String)
    (limited : Bool) (token : String) : Panel × Except ChallengeError String :=
  match p.requirePending id with
  | (p, .error e) => (p, .error e)
  | (p, .ok c) =>
      if c.method ≠ .totp then (p, .error (.badRequest "Challenge requires a different method"))
      else
        match (((p.accounts c.userId).filter (·.totpEnabled)).bind (·.totpSecret)).filter (· ≠ "") with
        | none => (p, .error (.badRequest "TOTP is not configured for this account"))
        | some secret =>
            if limited then (p, .error .tooManyRequests)
            else if valid p.now secret code then
              (p.resolve c .consumed (.verified c.id), .ok token)
            else if MAX_TOTP_ATTEMPTS ≤ c.attempts + 1 then
              (((p.record (.wrongCode c.id)).resolve { c with attempts := c.attempts + 1 } .expired
                (.expired c.id)),
                .error (.unauthorized "TOTP_LOCKED" "Too many attempts, challenge locked" 0))
            else
              ((p.update { c with attempts := c.attempts + 1 }).record (.wrongCode c.id),
                .error (.unauthorized "TOTP_INVALID" "Invalid code"
                  (MAX_TOTP_ATTEMPTS - (c.attempts + 1))))

inductive Decision
  | approve
  | deny
  deriving DecidableEq, Repr

/-- `resolveTelegramChallenge`; the reason where it is not ok. -/
def resolveTelegramChallenge (id : String) (decision : Decision) (telegramId : Nat)
    (token : String) : Panel × Except String Unit :=
  match p.challenges id with
  | none => (p, .error "not_found")
  | some c =>
      if c.status ≠ .pending then (p, .error c.status.text)
      else if c.expiresAt < p.now then
        (p.resolve c .expired (.expired c.id), .error "expired")
      else if c.method ≠ .telegram then (p, .error "wrong_method")
      else
        match findBy ITelegramUser.id p.telegramUsers telegramId with
        | none => (p, .error "forbidden")
        | some tgUser =>
            if tgUser.isActive = false ∨ tgUser.userId ≠ c.userId then (p, .error "forbidden")
            else
              match p.accounts c.userId with
              | none => (p, .error "no_user")
              | some _ =>
                  match decision with
                  | .deny => (p.resolve c .denied (.denied c.id), .ok ())
                  | .approve =>
                      (p.resolve { c with issuedToken := some token } .approved
                        (.approved c tgUser p.now), .ok ())

inductive Polled
  | pending
  | denied
  | expired
  | approved (token : Option String)
  deriving DecidableEq, Repr

/-- `pollStatus` after its check of the time. -/
def pollRow (c : IAuthChallenge) : Panel × Polled :=
  match c.status with
  | .approved =>
      match p.accounts c.userId with
      | none => (p, .expired)
      | some _ =>
          ((p.update { c with status := .consumed, issuedToken := none }).record
            (.handedOver c.id), .approved c.issuedToken)
  | .denied => (p, .denied)
  | .expired | .consumed => (p, .expired)
  | .pending => (p, .pending)

def pollStatus (id : String) : Panel × Polled :=
  match p.challenges id with
  | none => (p, .expired)
  | some c =>
      if c.expiresAt < p.now ∧ c.status = .pending then
        (p.resolve c .expired (.expired c.id)).pollRow { c with status := .expired }
      else p.pollRow c

end Panel

/-! ## Runs -/

inductive Event
  | start (user : Account) (method : TwoFactorMethod) (ip userAgent : Option String) (newId : String)
  | sent (i : Nat) (message : Option (Nat × Nat))
  | switch (id : String) (method : TwoFactorMethod) (newId : String)
  | verify (id code : String) (limited : Bool) (token : String)
  | telegram (id : String) (decision : Panel.Decision) (telegramId : Nat) (token : String)
  | poll (id : String)
  | advance (ms : Nat)
  | accountsChange (accounts : String → Option Account)
  | telegramChange (telegramUsers : List ITelegramUser)

/-- A new id is one that was not issued before. -/
def step (valid : Nat → String → String → Bool) (p : Panel) : Event → Option Panel
  | .start user method ip userAgent newId =>
      if newId ∈ p.issued then none
      else some (p.startChallenge user method ip userAgent newId).1
  | .sent i message =>
      match Suspended.get .finished p.calls i with
      | .sending challenge =>
          some ({ p with calls := p.calls.set i .finished }.finishStart challenge message)
      | .finished => none
  | .switch id method newId =>
      if newId ∈ p.issued then none else some (p.switchChallenge id method newId).1
  | .verify id code limited token => some (p.verifyTotpChallenge valid id code limited token).1
  | .telegram id decision telegramId token =>
      some (p.resolveTelegramChallenge id decision telegramId token).1
  | .poll id => some (p.pollStatus id).1
  | .advance ms => some { p with now := p.now + ms }
  | .accountsChange accounts => some { p with accounts := accounts }
  | .telegramChange telegramUsers => some { p with telegramUsers := telegramUsers }

/-- Any accounts, no challenges. -/
def machine (valid : Nat → String → String → Bool) : Machine Panel Event where
  init p := p.challenges = (fun _ => none) ∧ p.calls = [] ∧ p.log = []
  step := step valid

end Kubek.Twofa
