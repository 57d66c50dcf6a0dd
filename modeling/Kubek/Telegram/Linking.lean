/-
  Kubek.Telegram.Linking

  Linking panel accounts to Telegram users with one-time codes (bot-linking.service.ts,
  telegram-users.repository.ts, otp-codes.repository.ts, telegram-notifier.ts).

  The tables are lists of rows, with the constraints of the schema: `telegram_users` has
  the unique columns `id` and `userId`, both tables refer to an existing account and lose
  the rows of a deleted one. A statement that breaks a constraint throws. Every method
  below runs in one piece up to its last write and reads the clock once.
-/

import Kubek.Lib.KeyedRows
import Kubek.Lib.Machine
import Kubek.RateLimit.AttemptLimiter

namespace Kubek.Telegram

open KeyedRows RateLimit Transition

/-! ## Tables -/

inductive TelegramLang
  | en
  | ru
  deriving DecidableEq, Repr

/-- `ITelegramUser`, a row of `telegram_users`. -/
structure ITelegramUser where
  /-- Telegram user ID. -/
  id : Nat
  /-- Kubek user ID. -/
  userId : String
  username : Option String
  firstName : Option String
  lastName : Option String
  linkedAt : Nat
  isActive : Bool
  language : Option TelegramLang
  deriving DecidableEq, Repr

/-- `IOtpCode`, a row of `otp_codes`. -/
structure IOtpCode where
  id : String
  userId : String
  codeHash : String
  createdAt : Nat
  expiresAt : Nat
  used : Bool
  deriving DecidableEq, Repr

/-- The sender of a message. -/
structure TelegramFrom where
  id : Nat
  username : Option String := none
  firstName : Option String := none
  lastName : Option String := none
  languageCode : Option String := none

/-- An account became linked with a code; the panel reads none of it. -/
structure Link where
  otpId : String
  telegramId : Nat
  userId : String
  linkedAt : Nat
  deriving DecidableEq, Repr

structure Panel where
  accounts : List String := []
  telegramUsers : List ITelegramUser := []
  otpCodes : List IOtpCode := []
  /-- The limiter of the policy `telegram.otp`. -/
  rateLimit : AttemptLimiter := { policy := failures 5 }
  /-- Telegram users the bot is sending something to. -/
  sending : List Nat := []
  /-- Every code ever generated. -/
  issued : List IOtpCode := []
  links : List Link := []

/-- `x || null` and back. -/
def orNull (text : Option String) : Option String := text.filter (· ≠ "")

/-- What comes back of a stored row. -/
def ITelegramUser.stored (user : ITelegramUser) : ITelegramUser :=
  { user with
    username := orNull user.username
    firstName := orNull user.firstName
    lastName := orNull user.lastName }

/-- `detectLang`. -/
def detectLang (code : Option String) : TelegramLang :=
  match code with
  | none => .en
  | some code => if "ru".toList.isPrefixOf (code.toList.map Char.toLower) then .ru else .en

namespace Panel

variable (p : Panel)

/-- `findById`. -/
def findById (telegramId : Nat) : Option ITelegramUser :=
  findBy ITelegramUser.id p.telegramUsers telegramId

/-- `findByUserId`. -/
def findByUserId (userId : String) : Option ITelegramUser :=
  findBy ITelegramUser.userId p.telegramUsers userId

/-- `create` of a linked user, or none when a constraint fails. -/
def create (user : ITelegramUser) : Option (List ITelegramUser) :=
  if p.telegramUsers.any (fun row => row.id = user.id || row.userId = user.userId) ||
      !p.accounts.contains user.userId then none
  else some (p.telegramUsers ++ [user.stored])

/-- `update` of a linked user, or none when a constraint fails. -/
def update (user : ITelegramUser) : Option (List ITelegramUser) :=
  if p.telegramUsers.any (·.id = user.id) &&
      (p.telegramUsers.any (fun row => row.id ≠ user.id && row.userId = user.userId) ||
        !p.accounts.contains user.userId) then none
  else some (modifyRow ITelegramUser.id user.id (fun _ => user.stored) p.telegramUsers)

/-- `deactivate`. -/
def deactivate (telegramId : Nat) : Panel :=
  { p with
    telegramUsers := modifyRow ITelegramUser.id telegramId
      (fun row => { row with isActive := false }) p.telegramUsers }

/-- `markAsUsed`. -/
def markAsUsed (otpId : String) : Panel :=
  { p with
    otpCodes := modifyRow IOtpCode.id otpId (fun row => { row with used := true }) p.otpCodes }

/-- `deleteExpired`. -/
def deleteExpired (now : Nat) : Panel :=
  { p with otpCodes := p.otpCodes.filter fun otp => !decide (otp.expiresAt < now) }

/-- The first of the rows created last. -/
def latest : List IOtpCode → Option IOtpCode
  | [] => none
  | otp :: rest =>
      match latest rest with
      | none => some otp
      | some other => some (if otp.createdAt ≥ other.createdAt then otp else other)

/-- `findValidByUserId`. -/
def findValidByUserId (userId : String) (now : Nat) : Option IOtpCode :=
  latest (p.otpCodes.filter fun otp =>
    otp.userId = userId && decide (otp.expiresAt > now) && !otp.used)

/-! ## Operations -/

section Operations

-- the hex digest of sha256
variable (hash : String → String)

def otpExpiryMs : Nat := 2 * 60 * 1000

/-- `generateOtp`: `id` and `otp` are drawn at random, and a random id does not repeat. -/
def generateOtp (userId id otp : String) (now : Nat) : Option Panel :=
  if p.issued.any (·.id = id) then none
  else
    let cleaned := p.deleteExpired now
    let record : IOtpCode :=
      { id, userId, codeHash := hash otp, createdAt := now, expiresAt := now + otpExpiryMs,
        used := false }
    -- an unknown account breaks the foreign key after the clean-up
    if !p.accounts.contains userId then some cleaned
    else
      some { cleaned with
        otpCodes := cleaned.otpCodes ++ [record]
        issued := cleaned.issued ++ [record] }

/-- `validateOtp`, with its answer; none when the account is locked. -/
def validateOtp (userId otpCode : String) (now : Nat) : Panel × Option Bool :=
  let (rateLimit, wait) := p.rateLimit.retryAfter userId now
  let p := { p with rateLimit }
  if wait > 0 then (p, none)
  else
    match p.findValidByUserId userId now with
    | none => ({ p with rateLimit := (p.rateLimit.fail userId now).1 }, some false)
    | some otp =>
        if otp.codeHash ≠ hash otpCode then
          ({ p with rateLimit := (p.rateLimit.fail userId now).1 }, some false)
        else
          ({ p with rateLimit := p.rateLimit.reset userId }.markAsUsed otp.id, some true)

inductive Reply
  | none
  | tooMany (minutes : Nat)
  | invalid
  | accountLinkedElsewhere
  | telegramLinkedElsewhere
  | success (lang : TelegramLang)
  | failed
  deriving DecidableEq, Repr

/-- The code of the message is that of `otp`, which is valid. -/
def matchesOtp (otpCode : String) (now : Nat) (otp : IOtpCode) : Bool :=
  otp.codeHash = hash otpCode && decide (otp.expiresAt > now) && !otp.used

/-- The row that links the sender to the account of the code. -/
def linkedRow (sender : TelegramFrom) (existing : Option ITelegramUser) (userId : String)
    (now : Nat) : ITelegramUser where
  id := sender.id
  userId := userId
  username := sender.username
  firstName := sender.firstName
  lastName := sender.lastName
  linkedAt := now
  isActive := true
  -- keep an existing preference, otherwise detect from the Telegram client
  language := some ((existing.bind ITelegramUser.language).getD (detectLang sender.languageCode))

/-- The key of the limiter for a sender. -/
def limitKey (telegramId : Nat) : String := "tg:" ++ toString telegramId

/-- The part of `handleOtpCode` after a record was found. -/
def linkWith (sender : TelegramFrom) (otp : IOtpCode) (now : Nat) : Panel × Reply :=
  let existingLink := p.findByUserId otp.userId
  if existingLink.any fun row => row.isActive && row.id ≠ sender.id then
    (p, .accountLinkedElsewhere)
  else
    let existingTelegramLink := p.findById sender.id
    if existingTelegramLink.any fun row => row.isActive && row.userId ≠ otp.userId then
      (p, .telegramLinkedElsewhere)
    else
      let telegramUser := linkedRow sender existingTelegramLink otp.userId now
      match if existingTelegramLink.isSome then p.update telegramUser
        else p.create telegramUser with
      | none => (p, .failed)
      | some telegramUsers =>
          let linked : Panel :=
            { p with telegramUsers, links := p.links ++ [⟨otp.id, sender.id, otp.userId, now⟩] }
          (linked.markAsUsed otp.id, .success (telegramUser.language.getD .en))

/-- `handleOtpCode`. -/
def handleOtpCode (sender : TelegramFrom) (otpCode : String) (now : Nat) : Panel × Reply :=
  if sender.id = 0 then (p, .none)
  else
    let (rateLimit, wait) := p.rateLimit.waitSeconds (limitKey sender.id) now
    let p := { p with rateLimit }
    if wait > 0 then (p, .tooMany ((wait + 59) / 60))
    else
      match p.otpCodes.find? (matchesOtp hash otpCode now) with
      | none =>
          ({ p with rateLimit := (p.rateLimit.fail (limitKey sender.id) now).1 }, .invalid)
      | some otp =>
          { p with rateLimit := p.rateLimit.reset (limitKey sender.id) }.linkWith sender otp now

end Operations

/-- `getActiveUser`. -/
def getActiveUser (telegramId : Nat) : Option ITelegramUser :=
  (p.findById telegramId).filter ITelegramUser.isActive

/-- `unlinkSelf` of the active user. -/
def unlinkSelf (telegramId : Nat) : Option Panel :=
  (p.getActiveUser telegramId).map fun row => p.deactivate row.id

/-- `unlinkUser`; none when the user is not found. -/
def unlinkUser (telegramId : Nat) : Option Panel :=
  (p.findById telegramId).map fun _ => p.deactivate telegramId

/-- `setLanguage`. -/
def setLanguage (telegramId : Nat) (lang : TelegramLang) : Option Panel :=
  (p.getActiveUser telegramId).bind fun row =>
    (p.update { row with language := some lang }).map fun telegramUsers => { p with telegramUsers }

/-- A notification or an approval request to the linked user of an account, up to its await. -/
def send (userId : String) : Option Panel :=
  ((p.findByUserId userId).filter ITelegramUser.isActive).map fun row =>
    { p with sending := p.sending ++ [row.id] }

/-- The Telegram user of a send turned out to be unreachable. -/
def unreachable (j : Nat) : Option Panel :=
  (p.sending[j]?).map fun telegramId =>
    { p with sending := p.sending.eraseIdx j }.deactivate telegramId

/-- An account is deleted, and its rows with it. -/
def deleteAccount (userId : String) : Panel :=
  { p with
    accounts := p.accounts.filter (· ≠ userId)
    telegramUsers := p.telegramUsers.filter (·.userId ≠ userId)
    otpCodes := p.otpCodes.filter (·.userId ≠ userId) }

end Panel

/-! ## Steps -/

inductive Event
  | createAccount (userId : String)
  | deleteAccount (userId : String)
  | generateOtp (userId id otp : String) (now : Nat)
  | validateOtp (userId otpCode : String) (now : Nat)
  /-- A code message in a chat. -/
  | code (sender : TelegramFrom) (otpCode : String) (now : Nat)
  | unlinkSelf (telegramId : Nat)
  | unlinkUser (telegramId : Nat)
  | setLanguage (telegramId : Nat) (lang : TelegramLang)
  | send (userId : String)
  | unreachable (j : Nat)
  | prune (now : Nat)
  /-- The panel process is restarted; what lives in memory is gone. -/
  | restart

def step (hash : String → String) (p : Panel) : Event → Option Panel
  | .createAccount userId => some { p with accounts := p.accounts ++ [userId] }
  | .deleteAccount userId => some (p.deleteAccount userId)
  | .generateOtp userId id otp now => p.generateOtp hash userId id otp now
  | .validateOtp userId otpCode now => some (p.validateOtp hash userId otpCode now).1
  | .code sender otpCode now => some (p.handleOtpCode hash sender otpCode now).1
  | .unlinkSelf telegramId => p.unlinkSelf telegramId
  | .unlinkUser telegramId => p.unlinkUser telegramId
  | .setLanguage telegramId lang => p.setLanguage telegramId lang
  | .send userId => p.send userId
  | .unreachable j => p.unreachable j
  | .prune now => some { p with rateLimit := p.rateLimit.prune now }
  | .restart => some { p with rateLimit := { policy := failures 5 }, sending := [] }

/-- A panel without accounts. -/
def machine (hash : String → String) : Machine Panel Event where
  init p := p = {}
  step := step hash

end Kubek.Telegram
