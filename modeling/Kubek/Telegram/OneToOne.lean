/-
  Kubek.Telegram.OneToOne

  Linking stays one-to-one, a code links at most once and in time; and when a valid code
  links.

  A deactivated link keeps its row, and the row keeps the account's place in the unique
  column `userId`. A code of that account sent by another Telegram user then passes every
  check and fails in the statement (`stale_row_blocks_relinking`). Besides that, a valid
  code is refused only to a locked sender or when the same digits are an earlier code of
  another account (`linking_of_reachable`).
-/

import Kubek.Telegram.Linking

namespace Kubek.Telegram

open KeyedRows RateLimit Transition

/-- The Telegram user is actively linked to the account. -/
def Panel.Linked (p : Panel) (telegramId : Nat) (userId : String) : Prop :=
  ∃ row ∈ p.telegramUsers, row.id = telegramId ∧ row.userId = userId ∧ row.isActive = true

/-- At most one active Telegram user per account and one account per Telegram user. -/
def OneToOne (p : Panel) : Prop :=
  ∀ t a t' a', p.Linked t a → p.Linked t' a' → (t = t' ↔ a = a')

/-- Every link used a code generated for its account, in time, and no code linked twice. -/
structure OtpsLinkOnce (p : Panel) : Prop where
  issuedIds : UniqueCol IOtpCode.id p.issued
  once : UniqueCol Link.otpId p.links
  inTime : ∀ l ∈ p.links, ∃ otp ∈ p.issued,
    otp.id = l.otpId ∧ otp.userId = l.userId ∧ l.linkedAt < otp.expiresAt

/-- The pair is linked, and neither of the two is linked to anything else. -/
structure ExactlyLinked (p : Panel) (telegramId : Nat) (userId : String) : Prop where
  linked : p.Linked telegramId userId
  only : ∀ t a, p.Linked t a → (t = telegramId ↔ a = userId)

/-! ## Writes -/

namespace Panel

variable {p : Panel}

theorem create_eq_some {user : ITelegramUser} {rows : List ITelegramUser}
    (h : p.create user = some rows) :
    (∀ row ∈ p.telegramUsers, row.id ≠ user.id ∧ row.userId ≠ user.userId) ∧
      rows = p.telegramUsers ++ [user.stored] := by
  rw [create] at h
  split at h
  · cases h
  · rename_i h_free
    simp only [Bool.or_eq_true, not_or, List.any_eq_true, decide_eq_true_eq, not_exists,
      not_and] at h_free
    exact ⟨h_free.1, (Option.some.inj h).symm⟩

theorem update_eq_some {user : ITelegramUser} {rows : List ITelegramUser}
    (h : p.update user = some rows) :
    rows = modifyRow ITelegramUser.id user.id (fun _ => user.stored) p.telegramUsers ∧
      ((∃ row ∈ p.telegramUsers, row.id = user.id) →
        ∀ row ∈ p.telegramUsers, row.id ≠ user.id → row.userId ≠ user.userId) := by
  rw [update] at h
  split at h
  · cases h
  · rename_i h_free
    refine ⟨(Option.some.inj h).symm, ?_⟩
    rintro ⟨row, h_row, h_id⟩ other h_other h_ne h_user
    refine h_free ?_
    have h_any : p.telegramUsers.any (fun r => r.id = user.id) = true :=
      List.any_eq_true.mpr ⟨row, h_row, by simpa using h_id⟩
    have h_taken : p.telegramUsers.any
        (fun r => r.id ≠ user.id && r.userId = user.userId) = true :=
      List.any_eq_true.mpr ⟨other, h_other, by simp [h_ne, h_user]⟩
    rw [h_any, h_taken]
    rfl

/-- A row is created when nothing stands in its way. -/
theorem create_of_free (user : ITelegramUser)
    (h_id : ∀ row ∈ p.telegramUsers, row.id ≠ user.id)
    (h_user : ∀ row ∈ p.telegramUsers, row.userId ≠ user.userId)
    (h_account : user.userId ∈ p.accounts) :
    p.create user = some (p.telegramUsers ++ [user.stored]) := by
  rw [create, if_neg]
  simp only [Bool.or_eq_true, not_or, List.any_eq_true, decide_eq_true_eq, not_exists, not_and]
  refine ⟨fun row h_row => ⟨h_id row h_row, h_user row h_row⟩, ?_⟩
  simpa using h_account

/-- A row is updated when no other row has its account. -/
theorem update_of_free (user : ITelegramUser)
    (h_user : ∀ row ∈ p.telegramUsers, row.userId = user.userId → row.id = user.id)
    (h_account : user.userId ∈ p.accounts) :
    p.update user =
      some (modifyRow ITelegramUser.id user.id (fun _ => user.stored) p.telegramUsers) := by
  have h_taken : p.telegramUsers.any
      (fun row => row.id ≠ user.id && row.userId = user.userId) = false := by
    rw [List.any_eq_false]
    intro row h_row h_both
    simp only [ne_eq, decide_not, Bool.and_eq_true, Bool.not_eq_true', decide_eq_false_iff_not,
      decide_eq_true_eq] at h_both
    exact h_both.1 (h_user row h_row h_both.2)
  have h_known : p.accounts.contains user.userId = true := by simpa using h_account
  rw [update, h_taken, h_known, if_neg]
  simp

end Panel

/-! ## The rows of linked users -/

/-- The keys of `telegram_users`. -/
structure RowsInv (rows : List ITelegramUser) : Prop where
  ids : UniqueCol ITelegramUser.id rows
  userIds : UniqueCol ITelegramUser.userId rows

namespace RowsInv

variable {p : Panel}

theorem create (h : RowsInv p.telegramUsers) {user : ITelegramUser} {rows : List ITelegramUser}
    (h_create : p.create user = some rows) : RowsInv rows := by
  obtain ⟨h_free, rfl⟩ := Panel.create_eq_some h_create
  constructor
  · exact h.ids.append fun row h_row => (h_free row h_row).1
  · exact h.userIds.append fun row h_row => (h_free row h_row).2

theorem update (h : RowsInv p.telegramUsers) {user : ITelegramUser} {rows : List ITelegramUser}
    (h_update : p.update user = some rows) : RowsInv rows := by
  obtain ⟨rfl, h_free⟩ := Panel.update_eq_some h_update
  refine ⟨h.ids.modifyRow_same fun row h_row => h_row.symm, ?_⟩
  by_cases h_row : ∃ row ∈ p.telegramUsers, row.id = user.id
  · exact h.userIds.modifyRow_set h.ids (fun _ _ => rfl) (h_free h_row)
  · -- no row has the id, and nothing changes
    have h_same : modifyRow ITelegramUser.id user.id (fun _ => user.stored) p.telegramUsers =
        p.telegramUsers := by
      rw [modifyRow]
      conv_rhs => rw [← List.map_id p.telegramUsers]
      refine List.map_congr_left fun row h_mem => ?_
      exact if_neg fun h_id => h_row ⟨row, h_mem, h_id⟩
    rw [h_same]
    exact h.userIds

theorem deactivate (h : RowsInv p.telegramUsers) (telegramId : Nat) :
    RowsInv (p.deactivate telegramId).telegramUsers := by
  constructor
  · exact h.ids.modifyRow_same fun _ _ => rfl
  · exact h.userIds.modifyRow_same fun _ _ => rfl

theorem oneToOne (h : RowsInv p.telegramUsers) : OneToOne p := by
  rintro t a t' a' ⟨row, h_row, rfl, rfl, -⟩ ⟨row', h_row', rfl, rfl, -⟩
  constructor
  · intro h_id
    rw [h.ids.eq_of_col h_row h_row' h_id]
  · intro h_user
    rw [h.userIds.eq_of_col h_row h_row' h_user]

theorem exactlyLinked_iff (h : RowsInv p.telegramUsers) {t : Nat} {a : String} :
    ExactlyLinked p t a ↔ p.Linked t a :=
  ⟨ExactlyLinked.linked, fun h_linked => ⟨h_linked, fun t' a' h' =>
    h.oneToOne t' a' t a h' h_linked⟩⟩

end RowsInv

/-! ## Codes -/

/-- Stored codes belong to accounts and are among the generated ones; every link used a
    generated code in time, and a stored code that linked is used. -/
structure OtpInv (p : Panel) : Prop where
  owned : ∀ otp ∈ p.otpCodes, otp.userId ∈ p.accounts
  ids : UniqueCol IOtpCode.id p.otpCodes
  issuedIds : UniqueCol IOtpCode.id p.issued
  issued : ∀ otp ∈ p.otpCodes, ∃ i ∈ p.issued,
    i.id = otp.id ∧ i.userId = otp.userId ∧ i.expiresAt = otp.expiresAt
  once : UniqueCol Link.otpId p.links
  inTime : ∀ l ∈ p.links, ∃ i ∈ p.issued,
    i.id = l.otpId ∧ i.userId = l.userId ∧ l.linkedAt < i.expiresAt
  used : ∀ otp ∈ p.otpCodes, ∀ l ∈ p.links, l.otpId = otp.id → otp.used = true

namespace OtpInv

variable {p : Panel}

theorem otpsLinkOnce (h : OtpInv p) : OtpsLinkOnce p := ⟨h.issuedIds, h.once, h.inTime⟩

/-- Rows of the table are deleted. -/
theorem filterOtps (h : OtpInv p) (keep : IOtpCode → Bool) :
    OtpInv { p with otpCodes := p.otpCodes.filter keep } where
  owned otp h_otp := h.owned otp (List.mem_filter.mp h_otp).1
  ids := h.ids.filter keep
  issuedIds := h.issuedIds
  issued otp h_otp := h.issued otp (List.mem_filter.mp h_otp).1
  once := h.once
  inTime := h.inTime
  used otp h_otp := h.used otp (List.mem_filter.mp h_otp).1

theorem mem_markAsUsed {otpId : String} {otp : IOtpCode}
    (h : otp ∈ (p.markAsUsed otpId).otpCodes) :
    ∃ old ∈ p.otpCodes, old.id = otp.id ∧ old.userId = otp.userId ∧
      old.expiresAt = otp.expiresAt ∧ (old.used = true → otp.used = true) ∧
      (otp.id = otpId → otp.used = true) := by
  rcases mem_modifyRow.mp h with ⟨old, h_old, -, rfl⟩ | ⟨h_old, h_ne⟩
  · exact ⟨old, h_old, rfl, rfl, rfl, fun _ => rfl, fun _ => rfl⟩
  · exact ⟨otp, h_old, rfl, rfl, rfl, id, fun h_id => absurd h_id h_ne⟩

theorem markAsUsed (h : OtpInv p) (otpId : String) : OtpInv (p.markAsUsed otpId) where
  owned otp h_otp := by
    obtain ⟨old, h_old, -, h_user, -⟩ := mem_markAsUsed h_otp
    exact h_user ▸ h.owned old h_old
  ids := h.ids.modifyRow_same fun _ _ => rfl
  issuedIds := h.issuedIds
  issued otp h_otp := by
    obtain ⟨old, h_old, h_id, h_user, h_expires, -⟩ := mem_markAsUsed h_otp
    obtain ⟨i, h_i, h_i_id, h_i_user, h_i_expires⟩ := h.issued old h_old
    exact ⟨i, h_i, h_i_id.trans h_id, h_i_user.trans h_user, h_i_expires.trans h_expires⟩
  once := h.once
  inTime := h.inTime
  used otp h_otp l h_l h_id := by
    obtain ⟨old, h_old, h_same, -, -, h_used, -⟩ := mem_markAsUsed h_otp
    exact h_used (h.used old h_old l h_l (h_id.trans h_same.symm))

/-- A new code, under an id that was never issued. -/
theorem generateOtp {hash : String → String} {p' : Panel} {userId id otp : String} {now : Nat}
    (h : OtpInv p) (h_p' : p.generateOtp hash userId id otp now = some p') : OtpInv p' := by
  have h_clean : OtpInv (p.deleteExpired now) := h.filterOtps _
  simp only [Panel.generateOtp] at h_p'
  split at h_p'
  · cases h_p'
  rename_i h_new
  split at h_p'
  · cases h_p'
    exact h_clean
  rename_i h_account
  cases h_p'
  have h_fresh : ∀ i ∈ p.issued, i.id ≠ id := by simpa using h_new
  have h_known : userId ∈ p.accounts := by simpa using h_account
  constructor
  · intro o h_o
    rcases List.mem_append.mp h_o with h_old | h_one
    · exact h_clean.owned o h_old
    · rw [List.mem_singleton.mp h_one]
      exact h_known
  · refine h_clean.ids.append fun o h_o h_eq => ?_
    obtain ⟨i, h_i, h_id, -⟩ := h_clean.issued o h_o
    exact h_fresh i h_i (h_id.trans h_eq)
  · exact h.issuedIds.append h_fresh
  · intro o h_o
    rcases List.mem_append.mp h_o with h_old | h_one
    · obtain ⟨i, h_i, h_rest⟩ := h_clean.issued o h_old
      exact ⟨i, List.mem_append_left _ h_i, h_rest⟩
    · exact ⟨o, List.mem_append_right _ h_one, rfl, rfl, rfl⟩
  · exact h.once
  · intro l h_l
    obtain ⟨i, h_i, h_rest⟩ := h.inTime l h_l
    exact ⟨i, List.mem_append_left _ h_i, h_rest⟩
  · intro o h_o l h_l h_id
    rcases List.mem_append.mp h_o with h_old | h_one
    · exact h_clean.used o h_old l h_l h_id
    · -- a link of the new id would have been issued before
      obtain ⟨i, h_i, h_i_id, -⟩ := h.inTime l h_l
      rw [List.mem_singleton.mp h_one] at h_id
      exact absurd (h_i_id.trans h_id) (h_fresh i h_i)

theorem validateOtp {hash : String → String} {userId otpCode : String} {now : Nat}
    (h : OtpInv p) : OtpInv (p.validateOtp hash userId otpCode now).1 := by
  have h_limit : ∀ rateLimit, OtpInv { p with rateLimit } := fun _ => { h with }
  simp only [Panel.validateOtp]
  split
  · exact h_limit _
  split
  · exact h_limit _
  split
  · exact h_limit _
  · exact (h_limit _).markAsUsed _

/-- A link with a code that is stored, unused and not expired. -/
theorem link (h : OtpInv p) {otp : IOtpCode} (h_otp : otp ∈ p.otpCodes) {now : Nat}
    (h_time : now < otp.expiresAt) (h_unused : otp.used = false) (telegramId : Nat)
    (rows : List ITelegramUser) (links : List Link)
    (h_links : links = p.links ++ [⟨otp.id, telegramId, otp.userId, now⟩]) :
    OtpInv ({ p with telegramUsers := rows, links := links }.markAsUsed otp.id) := by
  have h_marked := h.markAsUsed otp.id
  subst h_links
  refine ⟨h_marked.owned, h_marked.ids, h.issuedIds, h_marked.issued, ?_, ?_, ?_⟩
  · refine h.once.append fun l h_l h_eq => ?_
    rw [h.used otp h_otp l h_l h_eq] at h_unused
    cases h_unused
  · intro l h_l
    rcases List.mem_append.mp h_l with h_old | h_one
    · exact h.inTime l h_old
    · rw [List.mem_singleton.mp h_one]
      obtain ⟨i, h_i, h_id, h_user, h_expires⟩ := h.issued otp h_otp
      exact ⟨i, h_i, h_id, h_user, h_expires ▸ h_time⟩
  · intro o h_o l h_l h_id
    rcases List.mem_append.mp h_l with h_old | h_one
    · exact h_marked.used o h_o l h_old h_id
    · rw [List.mem_singleton.mp h_one] at h_id
      obtain ⟨-, -, -, -, -, -, h_used⟩ := mem_markAsUsed h_o
      exact h_used h_id.symm

end OtpInv

/-! ## The code message -/

section CodeMessage

variable {p : Panel} {sender : TelegramFrom} {otp : IOtpCode} {now : Nat}

/-- What a found code does: nothing, or one row is written, which no other row conflicts
    with, and the code is used. -/
theorem linkWith_cases (p : Panel) (sender : TelegramFrom) (otp : IOtpCode) (now : Nat) :
    (p.linkWith sender otp now).1 = p ∨
      ∃ rows links, links = p.links ++ [⟨otp.id, sender.id, otp.userId, now⟩] ∧
        ((∃ row ∈ p.telegramUsers, row.id = sender.id) ∧
            p.update (Panel.linkedRow sender (p.findById sender.id) otp.userId now) = some rows ∨
          p.create (Panel.linkedRow sender (p.findById sender.id) otp.userId now) = some rows) ∧
        (p.linkWith sender otp now).1 =
          { p with telegramUsers := rows, links := links }.markAsUsed otp.id := by
  simp only [Panel.linkWith]
  split
  · exact .inl rfl
  split
  · exact .inl rfl
  split
  · exact .inl rfl
  · rename_i rows h_rows
    refine .inr ⟨rows, _, rfl, ?_, rfl⟩
    split at h_rows
    · rename_i h_some
      obtain ⟨row, h_row⟩ := Option.isSome_iff_exists.mp h_some
      have h_id : row.id = sender.id := by simpa using List.find?_some h_row
      exact .inl ⟨⟨row, List.mem_of_find?_eq_some h_row, h_id⟩, h_rows⟩
    · exact .inr h_rows

/-- The written row is the sender's, active and with the account of the code. -/
theorem mem_written {existing : Option ITelegramUser} {userId : String}
    {rows : List ITelegramUser}
    (h : (∃ row ∈ p.telegramUsers, row.id = sender.id) ∧
        p.update (Panel.linkedRow sender existing userId now) = some rows ∨
      p.create (Panel.linkedRow sender existing userId now) = some rows) {row : ITelegramUser} :
    row ∈ rows ↔ row = (Panel.linkedRow sender existing userId now).stored ∨
      (row ∈ p.telegramUsers ∧ row.id ≠ sender.id) := by
  rcases h with ⟨⟨old, h_old, h_id⟩, h_update⟩ | h_create
  · obtain ⟨rfl, -⟩ := Panel.update_eq_some h_update
    rw [mem_modifyRow]
    constructor
    · rintro (⟨r, -, -, h_eq⟩ | h_other)
      · exact .inl h_eq
      · exact .inr h_other
    · rintro (h_eq | h_other)
      · exact .inl ⟨old, h_old, h_id, h_eq⟩
      · exact .inr h_other
  · obtain ⟨h_free, rfl⟩ := Panel.create_eq_some h_create
    rw [List.mem_append, List.mem_singleton]
    constructor
    · rintro (h_old | h_eq)
      · exact .inr ⟨h_old, (h_free row h_old).1⟩
      · exact .inl h_eq
    · rintro (h_eq | h_other)
      · exact .inr h_eq
      · exact .inl h_other.1

/-- A row is written only when no other row has the account. -/
theorem free_of_written {existing : Option ITelegramUser} {userId : String}
    {rows : List ITelegramUser}
    (h : (∃ row ∈ p.telegramUsers, row.id = sender.id) ∧
        p.update (Panel.linkedRow sender existing userId now) = some rows ∨
      p.create (Panel.linkedRow sender existing userId now) = some rows) :
    ∀ row ∈ p.telegramUsers, row.userId = userId → row.id = sender.id := by
  intro row h_row h_user
  rcases h with ⟨h_exists, h_update⟩ | h_create
  · by_contra h_ne
    exact (Panel.update_eq_some h_update).2 h_exists row h_row h_ne h_user
  · exact absurd h_user ((Panel.create_eq_some h_create).1 row h_row).2

theorem linked_written {existing : Option ITelegramUser} {userId : String}
    {rows : List ITelegramUser} {p' : Panel} (h_p' : p'.telegramUsers = rows)
    (h : (∃ row ∈ p.telegramUsers, row.id = sender.id) ∧
        p.update (Panel.linkedRow sender existing userId now) = some rows ∨
      p.create (Panel.linkedRow sender existing userId now) = some rows) {t : Nat} {a : String} :
    p'.Linked t a ↔ (t = sender.id ∧ a = userId) ∨ (t ≠ sender.id ∧ p.Linked t a) := by
  rw [Panel.Linked, h_p']
  constructor
  · rintro ⟨row, h_row, rfl, rfl, h_active⟩
    rcases (mem_written h).mp h_row with rfl | ⟨h_old, h_ne⟩
    · exact .inl ⟨rfl, rfl⟩
    · exact .inr ⟨h_ne, row, h_old, rfl, rfl, h_active⟩
  · rintro (⟨rfl, rfl⟩ | ⟨h_ne, row, h_row, rfl, rfl, h_active⟩)
    · exact ⟨_, (mem_written h).mpr (.inl rfl), rfl, rfl, rfl⟩
    · exact ⟨row, (mem_written h).mpr (.inr ⟨h_row, h_ne⟩), rfl, rfl, h_active⟩

/-- A code links when neither side is linked elsewhere and no other row has the account. -/
theorem linkWith_linked (h : RowsInv p.telegramUsers) (h_account : otp.userId ∈ p.accounts)
    (h_free : ∀ row ∈ p.telegramUsers, row.userId = otp.userId → row.id = sender.id)
    (h_sender : ∀ a, p.Linked sender.id a → a = otp.userId) :
    (p.linkWith sender otp now).1.Linked sender.id otp.userId := by
  have h_link : (p.findByUserId otp.userId).any
      (fun row => row.isActive && row.id ≠ sender.id) = false := by
    cases h_find : p.findByUserId otp.userId with
    | none => rfl
    | some row =>
      obtain ⟨h_row, h_user⟩ := (findBy_eq_some_iff h.userIds).mp h_find
      simp [h_free row h_row h_user]
  have h_telegram : (p.findById sender.id).any
      (fun row => row.isActive && row.userId ≠ otp.userId) = false := by
    cases h_find : p.findById sender.id with
    | none => rfl
    | some row =>
      obtain ⟨h_row, h_id⟩ := (findBy_eq_some_iff h.ids).mp h_find
      cases h_active : row.isActive with
      | false => simp [h_active]
      | true =>
        have h_same : row.userId = otp.userId :=
          h_sender row.userId ⟨row, h_row, h_id, rfl, h_active⟩
        simp [h_same]
  simp only [Panel.linkWith]
  rw [h_link, h_telegram, if_neg Bool.false_ne_true, if_neg Bool.false_ne_true]
  cases h_find : p.findById sender.id with
  | some row =>
    obtain ⟨h_row, h_id⟩ := (findBy_eq_some_iff h.ids).mp h_find
    have h_update := Panel.update_of_free
      (Panel.linkedRow sender (some row) otp.userId now) h_free h_account
    rw [Option.isSome_some, if_pos rfl, h_update]
    exact (linked_written rfl (.inl ⟨⟨row, h_row, h_id⟩, h_update⟩)).mpr (.inl ⟨rfl, rfl⟩)
  | none =>
    have h_new := findBy_eq_none_iff.mp h_find
    have h_create := Panel.create_of_free
      (Panel.linkedRow sender none otp.userId now) h_new
      (fun row h_row h_user => h_new row h_row (h_free row h_row h_user)) h_account
    rw [Option.isSome_none, if_neg Bool.false_ne_true, h_create]
    exact (linked_written rfl (.inr h_create)).mpr (.inl ⟨rfl, rfl⟩)

/-- A sender that is linked stays linked, whatever code it sends. -/
theorem linkWith_keeps {a : String} (h : RowsInv p.telegramUsers) (h_old : p.Linked sender.id a) :
    (p.linkWith sender otp now).1.Linked sender.id a := by
  rcases linkWith_cases p sender otp now with h_same | ⟨rows, links, -, h_written, h_eq⟩
  · rw [h_same]
    exact h_old
  · by_cases h_a : a = otp.userId
    · rw [h_eq]
      exact (linked_written rfl h_written).mpr (.inl ⟨rfl, h_a⟩)
    · -- the sender is linked elsewhere, so nothing was written
      obtain ⟨row, h_row, h_id, h_user, h_active⟩ := h_old
      have h_find : p.findById sender.id = some row :=
        (findBy_eq_some_iff h.ids).mpr ⟨h_row, h_id⟩
      have h_refused : (p.linkWith sender otp now).1 = p := by
        simp only [Panel.linkWith]
        split
        · rfl
        · rw [h_find, Option.any_some, h_active, h_user]
          simp [h_a]
      rw [h_refused]
      exact ⟨row, h_row, h_id, h_user, h_active⟩

end CodeMessage

/-! ## Runs -/

/-- Both tables. -/
structure LinkInv (p : Panel) : Prop where
  rows : RowsInv p.telegramUsers
  otps : OtpInv p

namespace LinkInv

variable {p p' : Panel} {hash : String → String}

theorem empty : LinkInv {} where
  rows := ⟨uniqueCol_nil _, uniqueCol_nil _⟩
  otps := by constructor <;> simp [UniqueCol]

theorem setRateLimit (h : LinkInv p) (rateLimit : AttemptLimiter) :
    LinkInv { p with rateLimit := rateLimit } :=
  ⟨h.rows, { h.otps with }⟩

theorem deactivate (h : LinkInv p) (telegramId : Nat) : LinkInv (p.deactivate telegramId) :=
  ⟨h.rows.deactivate telegramId, { h.otps with }⟩

/-- A found code is stored, in time and unused. -/
theorem of_find {otpCode : String} {now : Nat} {otp : IOtpCode}
    (h : p.otpCodes.find? (Panel.matchesOtp hash otpCode now) = some otp) :
    otp ∈ p.otpCodes ∧ now < otp.expiresAt ∧ otp.used = false := by
  have h_match : Panel.matchesOtp hash otpCode now otp = true := List.find?_some h
  simp only [Panel.matchesOtp, Bool.and_eq_true, decide_eq_true_eq, Bool.not_eq_true'] at h_match
  exact ⟨List.mem_of_find?_eq_some h, h_match.1.2, h_match.2⟩

theorem linkWith (h : LinkInv p) {sender : TelegramFrom} {otp : IOtpCode} {now : Nat}
    (h_otp : otp ∈ p.otpCodes) (h_time : now < otp.expiresAt) (h_unused : otp.used = false) :
    LinkInv (p.linkWith sender otp now).1 := by
  rcases linkWith_cases p sender otp now with h_same | ⟨rows, links, h_links, h_written, h_eq⟩
  · rw [h_same]
    exact h
  · rw [h_eq]
    refine ⟨?_, h.otps.link h_otp h_time h_unused sender.id rows links h_links⟩
    show RowsInv rows
    rcases h_written with ⟨-, h_update⟩ | h_create
    · exact h.rows.update h_update
    · exact h.rows.create h_create

theorem handleOtpCode (h : LinkInv p) (sender : TelegramFrom) (otpCode : String) (now : Nat) :
    LinkInv (p.handleOtpCode hash sender otpCode now).1 := by
  simp only [Panel.handleOtpCode]
  split
  · exact h
  split
  · exact h.setRateLimit _
  split
  · exact h.setRateLimit _
  · rename_i otp h_find
    obtain ⟨h_otp, h_time, h_unused⟩ := of_find h_find
    exact (h.setRateLimit _).linkWith h_otp h_time h_unused

theorem deleteAccount (h : LinkInv p) (userId : String) : LinkInv (p.deleteAccount userId) := by
  have h_otps := h.otps.filterOtps (·.userId ≠ userId)
  refine ⟨⟨h.rows.ids.filter _, h.rows.userIds.filter _⟩, ?_⟩
  refine ⟨fun otp h_otp => ?_, h_otps.ids, h_otps.issuedIds, h_otps.issued, h_otps.once,
    h_otps.inTime, h_otps.used⟩
  obtain ⟨h_old, h_ne⟩ := List.mem_filter.mp h_otp
  exact List.mem_filter.mpr ⟨h.otps.owned otp h_old, h_ne⟩

theorem step {e : Event} (h : LinkInv p) (h_step : Telegram.step hash p e = some p') :
    LinkInv p' := by
  cases e with
  | createAccount userId =>
    cases h_step
    refine ⟨h.rows, { h.otps with owned := fun otp h_otp => ?_ }⟩
    exact List.mem_append_left _ (h.otps.owned otp h_otp)
  | deleteAccount userId =>
    cases h_step
    exact h.deleteAccount userId
  | generateOtp userId id otp now =>
    have h_rows : p'.telegramUsers = p.telegramUsers := by
      simp only [Telegram.step, Panel.generateOtp] at h_step
      split at h_step
      · cases h_step
      · split at h_step <;> cases h_step <;> rfl
    exact ⟨h_rows ▸ h.rows, h.otps.generateOtp h_step⟩
  | validateOtp userId otpCode now =>
    cases h_step
    refine ⟨?_, h.otps.validateOtp⟩
    have h_rows : (p.validateOtp hash userId otpCode now).1.telegramUsers = p.telegramUsers := by
      simp only [Panel.validateOtp]
      split
      · rfl
      split
      · rfl
      split <;> rfl
    rw [h_rows]
    exact h.rows
  | code sender otpCode now =>
    cases h_step
    exact h.handleOtpCode sender otpCode now
  | unlinkSelf telegramId =>
    obtain ⟨row, -, rfl⟩ := Option.map_eq_some_iff.mp h_step
    exact h.deactivate row.id
  | unlinkUser telegramId =>
    obtain ⟨row, -, rfl⟩ := Option.map_eq_some_iff.mp h_step
    exact h.deactivate telegramId
  | setLanguage telegramId lang =>
    obtain ⟨row, -, h_map⟩ := Option.bind_eq_some_iff.mp h_step
    obtain ⟨rows, h_update, rfl⟩ := Option.map_eq_some_iff.mp h_map
    exact ⟨h.rows.update h_update, { h.otps with }⟩
  | send userId =>
    obtain ⟨row, -, rfl⟩ := Option.map_eq_some_iff.mp h_step
    exact ⟨h.rows, { h.otps with }⟩
  | unreachable j =>
    obtain ⟨telegramId, -, rfl⟩ := Option.map_eq_some_iff.mp h_step
    have h_sent : LinkInv { p with sending := p.sending.eraseIdx j } :=
      ⟨h.rows, { h.otps with }⟩
    exact h_sent.deactivate telegramId
  | prune now =>
    cases h_step
    exact h.setRateLimit _
  | restart =>
    cases h_step
    exact ⟨h.rows, { h.otps with }⟩

end LinkInv

theorem linkInv_of_reachable {hash : String → String} {p : Panel}
    (h : (machine hash).Reachable p) : LinkInv p := by
  refine Machine.Reachable.invariant ?_ ?_ h
  · rintro _ rfl
    exact .empty
  · exact fun p e p' h_inv h_step => h_inv.step h_step

/-! ## When a valid code links -/

/-- The code is one of the account, unused and in time; neither the sender nor the account
    is linked elsewhere. -/
structure ValidCode (hash : String → String) (p : Panel) (sender : TelegramFrom)
    (otpCode : String) (now : Nat) (userId : String) : Prop where
  someone : sender.id ≠ 0
  otp : ∃ otp ∈ p.otpCodes, Panel.matchesOtp hash otpCode now otp = true ∧ otp.userId = userId
  senderFree : ∀ a, p.Linked sender.id a → a = userId
  accountFree : ∀ t, p.Linked t userId → t = sender.id

/-- The sender is not locked, no earlier row with the same digits is a valid code of another
    account, and no row of another Telegram user, active or not, has the account. -/
structure Unobstructed (hash : String → String) (p : Panel) (sender : TelegramFrom)
    (otpCode : String) (now : Nat) (userId : String) : Prop where
  unlocked : p.rateLimit.locked (Panel.limitKey sender.id) now = false
  first : (p.otpCodes.find? (Panel.matchesOtp hash otpCode now)).map IOtpCode.userId = some userId
  free : ∀ row ∈ p.telegramUsers, row.userId = userId → row.id = sender.id

theorem linked_handleOtpCode_iff {hash : String → String} {p : Panel} {sender : TelegramFrom}
    {otpCode : String} {now : Nat} {userId : String} (h : LinkInv p)
    (h_valid : ValidCode hash p sender otpCode now userId) :
    (p.handleOtpCode hash sender otpCode now).1.Linked sender.id userId ↔
      p.Linked sender.id userId ∨ Unobstructed hash p sender otpCode now userId := by
  simp only [Panel.handleOtpCode]
  rw [if_neg h_valid.someone]
  split
  · -- a locked sender
    rename_i h_wait
    rw [AttemptLimiter.waitSeconds_pos_iff] at h_wait
    refine ⟨Or.inl, ?_⟩
    rintro (h_old | h_free)
    · exact h_old
    · rw [h_free.unlocked] at h_wait
      cases h_wait
  rename_i h_wait
  rw [AttemptLimiter.waitSeconds_pos_iff, Bool.not_eq_true] at h_wait
  split
  · -- the code is there
    rename_i h_find
    obtain ⟨otp, h_otp, h_match, -⟩ := h_valid.otp
    exact absurd h_match (List.find?_eq_none.mp h_find otp h_otp)
  rename_i otp h_find
  obtain ⟨h_otp, -⟩ := LinkInv.of_find h_find
  constructor
  · intro h_linked
    by_cases h_old : p.Linked sender.id userId
    · exact .inl h_old
    rcases linkWith_cases _ sender otp now with h_same | ⟨rows, links, -, h_written, h_eq⟩
    · rw [h_same] at h_linked
      exact .inl h_linked
    · rw [h_eq] at h_linked
      rcases (linked_written rfl h_written).mp h_linked with ⟨-, rfl⟩ | ⟨h_ne, -⟩
      · exact .inr ⟨h_wait, congrArg _ h_find, free_of_written h_written⟩
      · exact absurd rfl h_ne
  · rintro (h_old | h_free)
    · exact linkWith_keeps h.rows h_old
    · have h_user : otp.userId = userId := by
        have h_first := h_free.first
        rw [show p.otpCodes.find? (Panel.matchesOtp hash otpCode now) = some otp from h_find]
          at h_first
        exact Option.some.inj h_first
      subst h_user
      exact linkWith_linked h.rows (h.otps.owned otp h_otp) h_free.free h_valid.senderFree

/-- **Telegram linking** in every reachable state: it is one-to-one, codes link at most once
    and in time, and a valid code leaves exactly its pair linked if and only if the pair was
    linked already or nothing obstructs it. -/
theorem linking_of_reachable {hash : String → String} {p : Panel}
    (h : (machine hash).Reachable p) :
    OneToOne p ∧ OtpsLinkOnce p ∧
      ∀ sender otpCode now userId, ValidCode hash p sender otpCode now userId →
        (ExactlyLinked (p.handleOtpCode hash sender otpCode now).1 sender.id userId ↔
          p.Linked sender.id userId ∨ Unobstructed hash p sender otpCode now userId) := by
  have h_inv := linkInv_of_reachable h
  refine ⟨h_inv.rows.oneToOne, h_inv.otps.otpsLinkOnce, ?_⟩
  intro sender otpCode now userId h_valid
  rw [(h_inv.handleOtpCode sender otpCode now).rows.exactlyLinked_iff]
  exact linked_handleOtpCode_iff h_inv h_valid

/-! ## A second partner -/

/-- An account with a fresh code. -/
def firstCode : List Event := [.createAccount "a", .generateOtp "a" "o1" "111111" 0]

def withFirstCode : Panel := ((machine id).run {} firstCode).get rfl

theorem withFirstCode_reachable : (machine id).Reachable withFirstCode :=
  (machine id).reachable_of_run firstCode (.init rfl) (Option.some_get _).symm

/-- No row links anybody yet. -/
theorem firstCode_valid (sender : TelegramFrom) (h : sender.id ≠ 0) :
    ValidCode id withFirstCode sender "111111" 1 "a" where
  someone := h
  otp := ⟨_, List.mem_cons_self, rfl, rfl⟩
  senderFree := by
    rintro a ⟨row, h_row, -⟩
    cases h_row
  accountFree := by
    rintro t ⟨row, h_row, -⟩
    cases h_row

theorem linking_firstCode :
    OtpsLinkOnce withFirstCode ∧
      ExactlyLinked (withFirstCode.handleOtpCode id { id := 7 } "111111" 1).1 7 "a" := by
  obtain ⟨-, h_once, h_iff⟩ := linking_of_reachable withFirstCode_reachable
  refine ⟨h_once, (h_iff { id := 7 } "111111" 1 "a" (firstCode_valid _ (by decide))).mpr (.inr ?_)⟩
  exact ⟨rfl, rfl, fun row h_row => by cases h_row⟩

/-- Telegram user 7 links with the code and unlinks, and the account gets a second code. -/
def secondCode : List Event :=
  [.code { id := 7 } "111111" 1, .unlinkSelf 7, .generateOtp "a" "o2" "222222" 2]

def withSecondCode : Panel := ((machine id).run withFirstCode secondCode).get rfl

/-- Nobody is linked any more, but the row of 7 keeps 8 from linking. -/
theorem stale_row_blocks_relinking :
    ¬ ∀ p : Panel, (machine id).Reachable p → ∀ sender otpCode now userId,
        ValidCode id p sender otpCode now userId →
        ExactlyLinked (p.handleOtpCode id sender otpCode now).1 sender.id userId := by
  intro h
  have h_reach : (machine id).Reachable withSecondCode :=
    (machine id).reachable_of_run secondCode withFirstCode_reachable (Option.some_get _).symm
  have h_unlinked : ∀ t a, ¬ withSecondCode.Linked t a := by
    rintro t a ⟨row, h_row, -, -, h_active⟩
    have h_rows : withSecondCode.telegramUsers.all (!·.isActive) = true := rfl
    have h_off := List.all_eq_true.mp h_rows row h_row
    rw [h_active] at h_off
    cases h_off
  have h_valid : ValidCode id withSecondCode { id := 8 } "222222" 3 "a" :=
    ⟨by decide, ⟨_, List.mem_cons_of_mem _ List.mem_cons_self, rfl, rfl⟩,
      fun a h_a => absurd h_a (h_unlinked _ a), fun t h_t => absurd h_t (h_unlinked t _)⟩
  obtain ⟨row, h_row, h_id, -⟩ := (h _ h_reach _ _ _ _ h_valid).linked
  have h_rows : (withSecondCode.handleOtpCode id { id := 8 } "222222" 3).1.telegramUsers.all
      (·.id != 8) = true := rfl
  have h_none := List.all_eq_true.mp h_rows row h_row
  rw [h_id] at h_none
  cases h_none

end Kubek.Telegram
