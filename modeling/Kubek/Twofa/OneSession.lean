/-
  Kubek.Twofa.OneSession

  A challenge grants at most one session, and only on proof.

  What happened to one challenge is its `history`. While its row is pending and its time is
  not over, nothing but wrong codes happened to it; while its row is approved, nothing but
  wrong codes and then one approval (`RowInv`). Every handler asks for one of the two, so
  every run keeps it (`inv_step`), as long as the send call of a Telegram request does not
  overwrite an answer that was given before it returned. One that does makes a challenge
  that was denied pending again (`late_send_reopens_challenge`).
-/

import Kubek.Twofa.Challenges

namespace Kubek.Twofa

open Access (Account TwoFactorMethod)
open KeyedRows (findBy)
open Telegram (ITelegramUser)
open Transition

/-! ## Histories -/

def Entry.challengeId : Entry → String
  | .wrongCode id => id
  | .verified id => id
  | .approved challenge _ _ => challenge.id
  | .denied id => id
  | .expired id => id
  | .handedOver id => id

/-- What happened to one challenge. -/
def history (log : List Entry) (id : String) : List Entry :=
  log.filter fun e => e.challengeId == id

/-- The client gets a session. -/
def isCompletion : Entry → Bool
  | .verified _ | .handedOver _ => true
  | _ => false

/-- A session is created. -/
def isSession : Entry → Bool
  | .verified _ | .approved _ _ _ => true
  | _ => false

def isWrongCode : Entry → Bool
  | .wrongCode _ => true
  | _ => false

/-- Denied, expired or consumed. -/
def isEnd : Entry → Bool
  | .denied _ | .expired _ | .verified _ | .handedOver _ => true
  | _ => false

theorem history_append (log es : List Entry) (id : String) :
    history (log ++ es) id = history log id ++ history es id := List.filter_append _ _

theorem history_of_same {es : List Entry} {id : String} (h : ∀ e ∈ es, e.challengeId = id) :
    history es id = es := List.filter_eq_self.mpr fun e h_e => by simp [h e h_e]

theorem history_of_other {es : List Entry} {id other : String} (h : ∀ e ∈ es, e.challengeId = id)
    (h_ne : other ≠ id) : history es other = [] := by
  apply List.filter_eq_nil_iff.mpr
  intro e h_e
  rw [h e h_e, beq_iff_eq]
  exact Ne.symm h_ne

/-! ## The invariant -/

/-- Nothing but wrong codes, fewer than allowed. -/
def Open (c : IAuthChallenge) (past : List Entry) : Prop :=
  past = List.replicate c.attempts (.wrongCode c.id) ∧ c.attempts < MAX_TOTP_ATTEMPTS

/-- An approval in time by the active Telegram user linked to the account. -/
structure Approval (e : Entry) (id userId : String) : Prop where
  is : ∃ c tgUser at_, e = .approved c tgUser at_ ∧ c.id = id ∧ c.userId = userId ∧
    c.method = .telegram ∧ tgUser.isActive = true ∧ tgUser.userId = userId ∧ at_ ≤ c.expiresAt

structure RowInv (c : IAuthChallenge) (now : Nat) (past : List Entry) : Prop where
  pending : c.status = .pending → c.expiresAt < now ∨ Open c past
  approved : c.status = .approved →
    ∃ n e, past = List.replicate n (.wrongCode c.id) ++ [e] ∧ Approval e c.id c.userId

/-- What holds of one id, with its row and its history. -/
structure IdInv (id : String) (row : Option IAuthChallenge) (now : Nat) (known : Prop)
    (past : List Entry) : Prop where
  sessions : past.countP isSession ≤ 1
  completions : past.countP isCompletion ≤ 1
  fresh : ¬ known → row = none ∧ past = []
  row_id : ∀ c, row = some c → c.id = id
  row_inv : ∀ c, row = some c → RowInv c now past

structure Inv (p : Panel) : Prop where
  ids : ∀ id, IdInv id (p.challenges id) p.now (id ∈ p.issued) (history p.log id)
  calls : ∀ i c, Suspended.get .finished p.calls i = .sending c → c.status = .pending

section Histories

variable {id : String} {n : Nat} {c : IAuthChallenge} {past : List Entry} {e : Entry}

theorem countP_wrongCodes {q : Entry → Bool} (h : q (.wrongCode id) = false) (n : Nat) :
    (List.replicate n (Entry.wrongCode id)).countP q = 0 := by
  rw [List.countP_eq_zero]
  intro e h_e
  rw [(List.mem_replicate.mp h_e).2, h]
  exact Bool.false_ne_true

theorem Open.counts (h : Open c past) :
    past.countP isSession = 0 ∧ past.countP isCompletion = 0 ∧ past.countP isEnd = 0 ∧
      past.countP isWrongCode < MAX_TOTP_ATTEMPTS := by
  obtain ⟨rfl, h_attempts⟩ := h
  refine ⟨countP_wrongCodes rfl _, countP_wrongCodes rfl _, countP_wrongCodes rfl _, ?_⟩
  apply Nat.lt_of_le_of_lt List.countP_le_length
  rwa [List.length_replicate]

theorem Approval.kinds {userId : String} (h : Approval e id userId) :
    isSession e = true ∧ isCompletion e = false ∧ isEnd e = false := by
  obtain ⟨c, tgUser, at_, rfl, -⟩ := h.is
  exact ⟨rfl, rfl, rfl⟩

theorem RowInv.of_over {now : Nat} (h_pending : c.status ≠ .pending)
    (h_approved : c.status ≠ .approved) : RowInv c now past :=
  ⟨fun h => absurd h h_pending, fun h => absurd h h_approved⟩

theorem RowInv.approved_counts {now : Nat} (h : RowInv c now past) (h_status : c.status = .approved) :
    past.countP isSession = 1 ∧ past.countP isCompletion = 0 ∧ past.countP isEnd = 0 := by
  obtain ⟨n, e, rfl, h_e⟩ := h.approved h_status
  obtain ⟨h_session, h_completion, h_end⟩ := h_e.kinds
  have h_zero : ∀ q : Entry → Bool, q (.wrongCode c.id) = false →
      (List.replicate n (Entry.wrongCode c.id) ++ [e]).countP q = [e].countP q := by
    intro q h_q
    rw [List.countP_append, countP_wrongCodes h_q, Nat.zero_add]
  rw [h_zero isSession rfl, h_zero isCompletion rfl, h_zero isEnd rfl]
  simp [h_session, h_completion, h_end]

end Histories

/-! ## One id at a time -/

section Change

variable {p p' : Panel} {id : String} {c : IAuthChallenge}

/-- A row tells that its id was issued. -/
theorem Inv.known (h : Inv p) (h_row : p.challenges id = some c) : id ∈ p.issued := by
  by_contra h_new
  rw [((h.ids id).fresh h_new).1] at h_row
  cases h_row

/-- A step that changes one row and appends to its history only. -/
theorem Inv.change (h : Inv p) (row : Option IAuthChallenge) (es : List Entry)
    (h_rows : p'.challenges = Function.update p.challenges id row)
    (h_log : p'.log = p.log ++ es) (h_es : ∀ e ∈ es, e.challengeId = id) (h_now : p'.now = p.now)
    (h_issued : p'.issued = p.issued) (h_calls : p'.calls = p.calls)
    (h_id : IdInv id row p.now (id ∈ p.issued) (history p.log id ++ es)) : Inv p' := by
  constructor
  · intro other
    rw [h_rows, h_log, h_now, h_issued, history_append]
    by_cases h_other : other = id
    · subst h_other
      rwa [Function.update_self, history_of_same h_es]
    · rw [Function.update_of_ne h_other, history_of_other h_es h_other, List.append_nil]
      exact h.ids other
  · rw [h_calls]
    exact h.calls

/-- The same for a row that is there already, and stays so. -/
theorem Inv.change_row (h : Inv p) (h_row : p.challenges id = some c) (c' : IAuthChallenge)
    (es : List Entry) (h_rows : p'.challenges = Function.update p.challenges id (some c'))
    (h_log : p'.log = p.log ++ es) (h_es : ∀ e ∈ es, e.challengeId = id) (h_now : p'.now = p.now)
    (h_issued : p'.issued = p.issued) (h_calls : p'.calls = p.calls) (h_id : c'.id = c.id)
    (h_sessions : (history p.log id ++ es).countP isSession ≤ 1)
    (h_completions : (history p.log id ++ es).countP isCompletion ≤ 1)
    (h_inv : RowInv c' p.now (history p.log id ++ es)) : Inv p' := by
  apply h.change _ es h_rows h_log h_es h_now h_issued h_calls
  have h_known := h.known h_row
  refine ⟨h_sessions, h_completions, fun h_new => absurd h_known h_new, ?_, ?_⟩
  · rintro _ ⟨⟩
    rw [h_id, (h.ids id).row_id c h_row]
  · rintro _ ⟨⟩
    exact h_inv

/-- A challenge is over: its row says so, and what happened is no session and no completion. -/
theorem Inv.close (h : Inv p) (h_row : p.challenges id = some c) (c' : IAuthChallenge)
    (es : List Entry) (h_rows : p'.challenges = Function.update p.challenges id (some c'))
    (h_log : p'.log = p.log ++ es) (h_es : ∀ e ∈ es, e.challengeId = id) (h_now : p'.now = p.now)
    (h_issued : p'.issued = p.issued) (h_calls : p'.calls = p.calls) (h_id : c'.id = c.id)
    (h_pending : c'.status ≠ .pending) (h_approved : c'.status ≠ .approved)
    (h_none : ∀ e ∈ es, isSession e = false ∧ isCompletion e = false) : Inv p' := by
  have h_zero : ∀ q : Entry → Bool, (∀ e ∈ es, q e = false) → es.countP q = 0 := by
    intro q h_q
    rw [List.countP_eq_zero]
    intro e h_e
    rw [h_q e h_e]
    exact Bool.false_ne_true
  apply h.change_row h_row c' es h_rows h_log h_es h_now h_issued h_calls h_id
  · rw [List.countP_append, h_zero _ fun e h_e => (h_none e h_e).1]
    exact (h.ids id).sessions
  · rw [List.countP_append, h_zero _ fun e h_e => (h_none e h_e).2]
    exact (h.ids id).completions
  · exact .of_over h_pending h_approved

/-- An update of the row that was read. -/
theorem update_row {c' : IAuthChallenge} (h_row : p.challenges id = some c) (h_self : c.id = id)
    (h_same : { c' with
      method := c.method, status := c.status, tgChatId := c.tgChatId, tgMessageId := c.tgMessageId
      issuedToken := c.issuedToken, resolvedAt := c.resolvedAt, expiresAt := c.expiresAt
      attempts := c.attempts } = c) :
    (p.update c').challenges = Function.update p.challenges id (some c') := by
  have h_id : c'.id = id := by rw [← h_self, ← h_same]
  rw [Panel.update, h_id, h_row, Option.map_some]
  rw [← h_same]

/-- The row of an open challenge, with its id. -/
theorem Inv.open_row (h : Inv p) (h_row : p.challenges id = some c) (h_status : c.status = .pending)
    (h_time : ¬ c.expiresAt < p.now) : c.id = id ∧ Open c (history p.log id) :=
  ⟨(h.ids id).row_id c h_row,
    (((h.ids id).row_inv c h_row).pending h_status).resolve_left h_time⟩

/-- Marked as denied or expired. -/
theorem Inv.resolve (h : Inv p) (h_row : p.challenges id = some c) {status : AuthChallengeStatus}
    {entry : Entry} (h_pending : status ≠ .pending) (h_approved : status ≠ .approved)
    (h_entry : entry.challengeId = c.id) (h_session : isSession entry = false)
    (h_completion : isCompletion entry = false) : Inv (p.resolve c status entry) := by
  have h_self := (h.ids id).row_id c h_row
  apply h.close h_row { c with status := status, resolvedAt := some p.now } [entry]
  · exact update_row h_row h_self rfl
  · rfl
  · intro e h_e
    rw [List.mem_singleton.mp h_e, h_entry, h_self]
  · rfl
  · rfl
  · rfl
  · rfl
  · exact h_pending
  · exact h_approved
  · intro e h_e
    rw [List.mem_singleton.mp h_e]
    exact ⟨h_session, h_completion⟩

theorem Inv.expire (h : Inv p) (h_row : p.challenges id = some c) :
    Inv (p.resolve c .expired (.expired c.id)) :=
  h.resolve h_row (by decide) (by decide) rfl rfl rfl

/-- A wrong code is counted. -/
theorem Inv.countWrongCode (h : Inv p) (h_row : p.challenges id = some c)
    (h_status : c.status = .pending) (h_time : ¬ c.expiresAt < p.now)
    (h_left : ¬ MAX_TOTP_ATTEMPTS ≤ c.attempts + 1) :
    Inv ((p.update { c with attempts := c.attempts + 1 }).record (.wrongCode c.id)) := by
  obtain ⟨h_self, h_open⟩ := h.open_row h_row h_status h_time
  have h_past : history p.log id ++ [.wrongCode c.id] =
      List.replicate (c.attempts + 1) (.wrongCode c.id) := by
    rw [h_open.1, List.replicate_succ']
  apply h.change_row h_row { c with attempts := c.attempts + 1 } [.wrongCode c.id]
  · exact update_row h_row h_self rfl
  · rfl
  · intro e h_e
    rw [List.mem_singleton.mp h_e]
    exact h_self
  · rfl
  · rfl
  · rfl
  · rfl
  · rw [h_past, countP_wrongCodes rfl]
    exact Nat.zero_le 1
  · rw [h_past, countP_wrongCodes rfl]
    exact Nat.zero_le 1
  · refine ⟨fun _ => .inr ⟨h_past, ?_⟩, fun h_approved => ?_⟩
    · exact Nat.lt_of_not_le h_left
    · rw [show c.status = .approved from h_approved] at h_status
      cases h_status

/-- The last wrong code locks the challenge. -/
theorem Inv.lock (h : Inv p) (h_row : p.challenges id = some c) :
    Inv ((p.record (.wrongCode c.id)).resolve { c with attempts := c.attempts + 1 } .expired
      (.expired c.id)) := by
  have h_self := (h.ids id).row_id c h_row
  apply h.close h_row
    { c with attempts := c.attempts + 1, status := .expired, resolvedAt := some p.now }
    [.wrongCode c.id, .expired c.id]
  · exact update_row h_row h_self rfl
  · exact List.append_assoc p.log [.wrongCode c.id] [.expired c.id]
  · intro e h_e
    obtain rfl | h_e := List.mem_cons.mp h_e
    · exact h_self
    · rw [List.mem_singleton.mp h_e]
      exact h_self
  · rfl
  · rfl
  · rfl
  · rfl
  · exact fun h_eq => by cases h_eq
  · exact fun h_eq => by cases h_eq
  · intro e h_e
    obtain rfl | h_e := List.mem_cons.mp h_e
    · exact ⟨rfl, rfl⟩
    · rw [List.mem_singleton.mp h_e]
      exact ⟨rfl, rfl⟩

/-- A code that fits completes an open challenge. -/
theorem Inv.verify (h : Inv p) (h_row : p.challenges id = some c) (h_status : c.status = .pending)
    (h_time : ¬ c.expiresAt < p.now) : Inv (p.resolve c .consumed (.verified c.id)) := by
  obtain ⟨h_self, h_open⟩ := h.open_row h_row h_status h_time
  obtain ⟨h_sessions, h_completions, -, -⟩ := h_open.counts
  apply h.change_row h_row { c with status := .consumed, resolvedAt := some p.now } [.verified c.id]
  · exact update_row h_row h_self rfl
  · rfl
  · intro e h_e
    rw [List.mem_singleton.mp h_e]
    exact h_self
  · rfl
  · rfl
  · rfl
  · rfl
  · rw [List.countP_append, h_sessions]
    exact Nat.le_refl 1
  · rw [List.countP_append, h_completions]
    exact Nat.le_refl 1
  · exact .of_over (fun h_eq => by cases h_eq) (fun h_eq => by cases h_eq)

/-- An approval of an open challenge. -/
theorem Inv.approve (h : Inv p) (h_row : p.challenges id = some c) (h_status : c.status = .pending)
    (h_time : ¬ c.expiresAt < p.now) (h_method : c.method = .telegram) {tgUser : ITelegramUser}
    (h_active : tgUser.isActive = true) (h_linked : tgUser.userId = c.userId) (token : String) :
    Inv (p.resolve { c with issuedToken := some token } .approved (.approved c tgUser p.now)) := by
  obtain ⟨h_self, h_open⟩ := h.open_row h_row h_status h_time
  obtain ⟨h_sessions, h_completions, -, -⟩ := h_open.counts
  apply h.change_row h_row
    { c with issuedToken := some token, status := .approved, resolvedAt := some p.now }
    [.approved c tgUser p.now]
  · exact update_row h_row h_self rfl
  · rfl
  · intro e h_e
    rw [List.mem_singleton.mp h_e]
    exact h_self
  · rfl
  · rfl
  · rfl
  · rfl
  · rw [List.countP_append, h_sessions]
    exact Nat.le_refl 1
  · rw [List.countP_append, h_completions]
    exact Nat.zero_le 1
  · refine ⟨fun h_pending => (by cases h_pending), fun _ => ?_⟩
    refine ⟨c.attempts, _, by rw [h_open.1], ⟨c, tgUser, p.now, rfl, rfl, rfl, h_method, h_active,
      h_linked, Nat.le_of_not_lt h_time⟩⟩

/-- The session of an approved challenge is handed over. -/
theorem Inv.handOver (h : Inv p) (h_row : p.challenges id = some c) (h_status : c.status = .approved) :
    Inv ((p.update { c with status := .consumed, issuedToken := none }).record
      (.handedOver c.id)) := by
  have h_self := (h.ids id).row_id c h_row
  obtain ⟨h_sessions, h_completions, -⟩ := ((h.ids id).row_inv c h_row).approved_counts h_status
  apply h.change_row h_row { c with status := .consumed, issuedToken := none } [.handedOver c.id]
  · exact update_row h_row h_self rfl
  · rfl
  · intro e h_e
    rw [List.mem_singleton.mp h_e]
    exact h_self
  · rfl
  · rfl
  · rfl
  · rfl
  · rw [List.countP_append, h_sessions]
    exact Nat.le_refl 1
  · rw [List.countP_append, h_completions]
    exact Nat.le_refl 1
  · exact .of_over (fun h_eq => by cases h_eq) (fun h_eq => by cases h_eq)

end Change

/-! ## Handlers -/

section Handlers

variable {p p' : Panel} {id : String} {c : IAuthChallenge}

/-- What `requirePending` comes to. -/
theorem requirePending_cases (p : Panel) (id : String) :
    (∃ e, p.requirePending id = (p, .error e)) ∨
    (∃ c e, p.challenges id = some c ∧
      p.requirePending id = (p.resolve c .expired (.expired c.id), .error e)) ∨
    ∃ c, p.challenges id = some c ∧ c.status = .pending ∧ ¬ c.expiresAt < p.now ∧
      p.requirePending id = (p, .ok c) := by
  rw [Panel.requirePending]
  cases h_row : p.challenges id with
  | none => exact .inl ⟨_, rfl⟩
  | some c =>
    by_cases h_status : c.status = .pending
    · by_cases h_time : c.expiresAt < p.now
      · refine .inr (.inl ⟨c, .badRequest "Challenge expired", rfl, ?_⟩)
        simp only [h_status, ne_eq, not_true_eq_false, if_false, h_time, if_true]
      · refine .inr (.inr ⟨c, rfl, h_status, h_time, ?_⟩)
        simp only [h_status, ne_eq, not_true_eq_false, if_false, h_time]
    · refine .inl ⟨.badRequest ("Challenge is " ++ c.status.text), ?_⟩
      simp only [ne_eq, h_status, not_false_eq_true, if_true]

theorem Inv.deleteExpired (h : Inv p) : Inv p.deleteExpired := by
  constructor
  · intro id
    obtain ⟨h_sessions, h_completions, h_fresh, h_self, h_inv⟩ := h.ids id
    have h_kept : ∀ c, (p.challenges id).filter (fun c => !p.isStale c) = some c →
        p.challenges id = some c := fun c h_c => (Option.filter_eq_some_iff.mp h_c).1
    refine ⟨h_sessions, h_completions, fun h_new => ⟨?_, (h_fresh h_new).2⟩,
      fun c h_c => h_self c (h_kept c h_c), fun c h_c => h_inv c (h_kept c h_c)⟩
    show (p.challenges id).filter (fun c => !p.isStale c) = none
    rw [(h_fresh h_new).1]
    rfl
  · exact h.calls

/-- A new challenge is open. -/
theorem Inv.create (h : Inv p) (h_new : c.id ∉ p.issued) (h_attempts : c.attempts = 0)
    (h_status : c.status = .pending) : Inv (p.create c) := by
  obtain ⟨h_row, h_past⟩ := (h.ids c.id).fresh h_new
  constructor
  · intro id
    by_cases h_id : id = c.id
    · subst h_id
      show IdInv c.id (Function.update p.challenges c.id (some c) c.id) p.now
        (c.id ∈ c.id :: p.issued) (history p.log c.id)
      rw [Function.update_self, h_past]
      refine ⟨Nat.zero_le 1, Nat.zero_le 1, fun h_unknown => absurd List.mem_cons_self h_unknown,
        ?_, ?_⟩
      · rintro _ ⟨⟩
        rfl
      · rintro _ ⟨⟩
        refine ⟨fun _ => .inr ⟨?_, ?_⟩, fun h_approved => ?_⟩
        · rw [h_attempts]
          rfl
        · rw [h_attempts]
          decide
        · rw [h_status] at h_approved
          cases h_approved
    · show IdInv id (Function.update p.challenges c.id (some c) id) p.now (id ∈ c.id :: p.issued)
        (history p.log id)
      rw [Function.update_of_ne h_id]
      obtain ⟨h_sessions, h_completions, h_fresh, h_self, h_inv⟩ := h.ids id
      refine ⟨h_sessions, h_completions, fun h_unknown => h_fresh fun h_mem => ?_, h_self, h_inv⟩
      exact h_unknown (List.mem_cons_of_mem _ h_mem)
  · exact h.calls

theorem Inv.await (h : Inv p) (h_status : c.status = .pending) :
    Inv { p with calls := p.calls ++ [.sending c] } := by
  refine ⟨h.ids, fun i c' h_call => ?_⟩
  obtain ⟨-, h_eq⟩ | ⟨-, h_old⟩ :=
    Suspended.update_cases (Suspended.get_push Call.finished p.calls (.sending c)) h_call
  · cases h_eq
    exact h_status
  · exact h.calls i c' h_old

theorem Inv.startChallenge (h : Inv p) (user : Account) (method : TwoFactorMethod)
    (ip userAgent : Option String) {newId : String} (h_new : newId ∉ p.issued) :
    Inv (p.startChallenge user method ip userAgent newId).1 := by
  rw [Panel.startChallenge]
  split
  · exact h
  · have h_created : ∀ c : IAuthChallenge, c.id = newId → c.attempts = 0 → c.status = .pending →
        Inv (p.deleteExpired.create c) := by
      rintro c rfl h_attempts h_status
      exact h.deleteExpired.create h_new h_attempts h_status
    cases method with
    | totp => exact h_created _ rfl rfl rfl
    | telegram => exact (h_created _ rfl rfl rfl).await rfl

theorem Inv.switchChallenge (h : Inv p) (id : String) (method : TwoFactorMethod) {newId : String}
    (h_new : newId ∉ p.issued) : Inv (p.switchChallenge id method newId).1 := by
  rw [Panel.switchChallenge]
  obtain ⟨e, h_pending⟩ | ⟨c, e, h_row, h_pending⟩ | ⟨c, h_row, -, -, h_pending⟩ :=
    requirePending_cases p id
  · rw [h_pending]
    exact h
  · rw [h_pending]
    exact h.expire h_row
  · rw [h_pending]
    cases h_user : p.accounts c.userId with
    | none =>
      simp only [h_user]
      exact h
    | some user =>
      simp only [h_user]
      split
      · exact h
      · exact (h.expire h_row).startChallenge user method c.ip c.userAgent h_new

theorem Inv.verifyTotpChallenge (h : Inv p) (valid : Nat → String → String → Bool)
    (id code : String) (limited : Bool) (token : String) :
    Inv (p.verifyTotpChallenge valid id code limited token).1 := by
  rw [Panel.verifyTotpChallenge]
  obtain ⟨e, h_pending⟩ | ⟨c, e, h_row, h_pending⟩ | ⟨c, h_row, h_status, h_time, h_pending⟩ :=
    requirePending_cases p id
  · rw [h_pending]
    exact h
  · rw [h_pending]
    exact h.expire h_row
  · rw [h_pending]
    simp only
    split
    · exact h
    · split
      · exact h
      · split
        · exact h
        · split
          · exact h.verify h_row h_status h_time
          · split
            · exact h.lock h_row
            · rename_i h_left
              exact h.countWrongCode h_row h_status h_time h_left

theorem Inv.resolveTelegramChallenge (h : Inv p) (id : String) (decision : Panel.Decision)
    (telegramId : Nat) (token : String) :
    Inv (p.resolveTelegramChallenge id decision telegramId token).1 := by
  rw [Panel.resolveTelegramChallenge]
  cases h_row : p.challenges id with
  | none => exact h
  | some c =>
    simp only
    split
    · exact h
    · rename_i h_status
      rw [ne_eq, not_not] at h_status
      split
      · exact h.expire h_row
      · rename_i h_time
        split
        · exact h
        · rename_i h_method
          rw [ne_eq, not_not] at h_method
          split
          · exact h
          · rename_i tgUser h_found
            split
            · exact h
            · rename_i h_linked
              rw [not_or, Bool.not_eq_false, ne_eq, not_not] at h_linked
              split
              · exact h
              · split
                · exact h.resolve h_row (by decide) (by decide) rfl rfl rfl
                · exact h.approve h_row h_status h_time h_method h_linked.1 h_linked.2 token

theorem Inv.pollRow (h : Inv p) (h_row : p.challenges id = some c) : Inv (p.pollRow c).1 := by
  rw [Panel.pollRow]
  cases h_status : c.status with
  | approved =>
    cases h_user : p.accounts c.userId with
    | none => exact h
    | some user => exact h.handOver h_row h_status
  | _ => exact h

theorem Inv.pollStatus (h : Inv p) (id : String) : Inv (p.pollStatus id).1 := by
  rw [Panel.pollStatus]
  cases h_row : p.challenges id with
  | none => exact h
  | some c =>
    simp only
    split
    · exact h.expire h_row
    · exact h.pollRow h_row

/-- The send call finds the row as it was created, or past its time. -/
def freshSend (p : Panel) : Event → Bool
  | .sent i (some _) =>
      match Suspended.get .finished p.calls i with
      | .finished => true
      | .sending c =>
          match p.challenges c.id with
          | none => true
          | some row => row == c || c.expiresAt < p.now
  | _ => true

theorem Inv.goOn (h : Inv p) {i : Nat} (h_i : i < p.calls.length) :
    Inv { p with calls := p.calls.set i .finished } := by
  refine ⟨h.ids, fun j c' h_call => ?_⟩
  obtain ⟨-, h_eq⟩ | ⟨-, h_old⟩ :=
    Suspended.update_cases (Suspended.get_set Call.finished h_i .finished) h_call
  · cases h_eq
  · exact h.calls j c' h_old

theorem Inv.delete (h : Inv p) (id : String) : Inv (p.delete id) := by
  apply h.change none []
  · show Function.update p.challenges id none = _
    rfl
  · exact (List.append_nil _).symm
  · exact fun e h_e => by cases h_e
  · rfl
  · rfl
  · rfl
  · rw [List.append_nil]
    obtain ⟨h_sessions, h_completions, h_fresh, -, -⟩ := h.ids id
    exact ⟨h_sessions, h_completions, fun h_new => ⟨rfl, (h_fresh h_new).2⟩,
      fun c h_c => (by cases h_c), fun c h_c => (by cases h_c)⟩

/-- The send call returned: the place of the message joins a row nobody has answered. -/
theorem Inv.finishStart (h : Inv p) (h_status : c.status = .pending) (message : Option (Nat × Nat))
    (h_fresh : message ≠ none → ∀ row, p.challenges c.id = some row →
      row = c ∨ c.expiresAt < p.now) : Inv (p.finishStart c message) := by
  cases message with
  | none => exact h.delete c.id
  | some sent =>
    rw [Panel.finishStart]
    cases h_row : p.challenges c.id with
    | none =>
      -- `UPDATE` of a row that is gone
      have h_gone : p.update { c with tgChatId := some sent.1, tgMessageId := some sent.2 } =
          p.delete c.id := by
        rw [Panel.update, h_row]
        rfl
      rw [h_gone]
      exact h.delete c.id
    | some row =>
      have h_self := (h.ids c.id).row_id row h_row
      apply h.change_row h_row { row with
        method := c.method, status := c.status, tgChatId := some sent.1, tgMessageId := some sent.2
        issuedToken := c.issuedToken, resolvedAt := c.resolvedAt, expiresAt := c.expiresAt
        attempts := c.attempts } []
      · rw [Panel.update, h_row]
        rfl
      · exact (List.append_nil _).symm
      · exact fun e h_e => by cases h_e
      · rfl
      · rfl
      · rfl
      · rfl
      · rw [List.append_nil]
        exact (h.ids c.id).sessions
      · rw [List.append_nil]
        exact (h.ids c.id).completions
      · rw [List.append_nil]
        refine ⟨fun _ => ?_, fun h_approved => ?_⟩
        · obtain rfl | h_time := h_fresh (by simp) row h_row
          · exact ((h.ids row.id).row_inv row h_row).pending h_status
          · exact .inl h_time
        · rw [show c.status = .approved from h_approved] at h_status
          cases h_status

end Handlers

/-! ## Runs -/

/-- Every step whose send calls are fresh keeps the invariant. -/
theorem inv_step {valid : Nat → String → String → Bool} {p p' : Panel} {e : Event} (h : Inv p)
    (h_fresh : freshSend p e = true) (h_step : step valid p e = some p') : Inv p' := by
  cases e with
  | start user method ip userAgent newId =>
    rw [step] at h_step
    split at h_step
    · cases h_step
    · rename_i h_new
      cases h_step
      exact h.startChallenge user method ip userAgent h_new
  | sent i message =>
    rw [step] at h_step
    cases h_call : Suspended.get Call.finished p.calls i with
    | finished =>
      rw [h_call] at h_step
      cases h_step
    | sending c =>
      rw [h_call] at h_step
      cases h_step
      have h_i : i < p.calls.length := by
        apply Suspended.lt_of_get_ne Call.finished
        rw [h_call]
        exact Call.noConfusion
      apply (h.goOn h_i).finishStart (h.calls i c h_call) message
      intro h_message row h_row
      obtain ⟨sent, rfl⟩ := Option.ne_none_iff_exists'.mp h_message
      rw [freshSend, h_call] at h_fresh
      have h_row' : p.challenges c.id = some row := h_row
      simp only [h_row', Bool.or_eq_true, beq_iff_eq, decide_eq_true_eq] at h_fresh
      exact h_fresh
  | switch id method newId =>
    rw [step] at h_step
    split at h_step
    · cases h_step
    · rename_i h_new
      cases h_step
      exact h.switchChallenge id method h_new
  | verify id code limited token =>
    cases h_step
    exact h.verifyTotpChallenge valid id code limited token
  | telegram id decision telegramId token =>
    cases h_step
    exact h.resolveTelegramChallenge id decision telegramId token
  | poll id =>
    cases h_step
    exact h.pollStatus id
  | advance ms =>
    cases h_step
    refine ⟨fun id => ?_, h.calls⟩
    obtain ⟨h_sessions, h_completions, h_new, h_self, h_inv⟩ := h.ids id
    refine ⟨h_sessions, h_completions, h_new, h_self, fun c h_c => ?_⟩
    refine ⟨fun h_status => ?_, (h_inv c h_c).approved⟩
    obtain h_time | h_open := (h_inv c h_c).pending h_status
    · exact .inl (Nat.lt_of_lt_of_le h_time (Nat.le_add_right p.now ms))
    · exact .inr h_open
  | accountsChange accounts =>
    cases h_step
    exact ⟨h.ids, h.calls⟩
  | telegramChange telegramUsers =>
    cases h_step
    exact ⟨h.ids, h.calls⟩

theorem inv_reachable {valid : Nat → String → String → Bool} {p : Panel}
    (h : (machine valid).ReachableUnder (fun p e => freshSend p e = true) p) : Inv p := by
  apply Machine.ReachableUnder.invariant _ _ h
  · rintro p ⟨h_rows, h_calls, h_log⟩
    constructor
    · intro id
      rw [h_rows, h_log]
      exact ⟨Nat.zero_le 1, Nat.zero_le 1, fun _ => ⟨rfl, rfl⟩, fun c h_c => (by cases h_c),
        fun c h_c => (by cases h_c)⟩
    · rw [h_calls]
      intro i c h_call
      rw [Suspended.get_nil] at h_call
      cases h_call
  · intro p e p' h_p h_fresh h_step
    exact inv_step h_p h_fresh h_step

/-! ## Proof -/

/-- One challenge grants at most one session, and only on proof: what happened to it, and what
    each handler that grants one has found. -/
structure GrantsOnProof (valid : Nat → String → String → Bool) (p : Panel) (id : String) : Prop where
  completesOnce : (history p.log id).countP isCompletion ≤ 1
  oneSession : (history p.log id).countP isSession ≤ 1
  /-- A code completes it where it fits now, in time, after fewer wrong ones than allowed, and
      where it was not denied, expired or consumed. -/
  code : ∀ code limited token token',
    (p.verifyTotpChallenge valid id code limited token).2 = .ok token' →
    ∃ c user secret, p.challenges id = some c ∧ c.method = .totp ∧ p.now ≤ c.expiresAt ∧
      p.accounts c.userId = some user ∧ user.totpEnabled = true ∧ user.totpSecret = some secret ∧
      valid p.now secret code = true ∧
      (history p.log id).countP isWrongCode < MAX_TOTP_ATTEMPTS ∧
      (history p.log id).countP isEnd = 0
  /-- Polling completes it after an approval in time by the active Telegram user linked to its
      account, and where it was not denied, expired or consumed. -/
  polled : ∀ token, (p.pollStatus id).2 = .approved token →
    ∃ c, p.challenges id = some c ∧ (∃ e ∈ history p.log id, Approval e id c.userId) ∧
      (history p.log id).countP isEnd = 0
  /-- An approval creates the first session, of a challenge that was not denied, expired or
      consumed. -/
  approval : ∀ telegramId token,
    (p.resolveTelegramChallenge id .approve telegramId token).2 = .ok () →
    ∃ c tgUser, p.challenges id = some c ∧ p.now ≤ c.expiresAt ∧
      findBy ITelegramUser.id p.telegramUsers telegramId = some tgUser ∧ tgUser.isActive = true ∧
      tgUser.userId = c.userId ∧ (history p.log id).countP isSession = 0 ∧
      (history p.log id).countP isEnd = 0

section Proof

variable {valid : Nat → String → String → Bool} {p : Panel} {id : String}

theorem verify_proof (h : Inv p) {code token token' : String} {limited : Bool}
    (h_ok : (p.verifyTotpChallenge valid id code limited token).2 = .ok token') :
    ∃ c user secret, p.challenges id = some c ∧ c.method = .totp ∧ p.now ≤ c.expiresAt ∧
      p.accounts c.userId = some user ∧ user.totpEnabled = true ∧ user.totpSecret = some secret ∧
      valid p.now secret code = true ∧
      (history p.log id).countP isWrongCode < MAX_TOTP_ATTEMPTS ∧
      (history p.log id).countP isEnd = 0 := by
  rw [Panel.verifyTotpChallenge] at h_ok
  obtain ⟨e, h_pending⟩ | ⟨c, e, h_row, h_pending⟩ | ⟨c, h_row, h_status, h_time, h_pending⟩ :=
    requirePending_cases p id
  · rw [h_pending] at h_ok
    cases h_ok
  · rw [h_pending] at h_ok
    cases h_ok
  · obtain ⟨h_self, h_open⟩ := h.open_row h_row h_status h_time
    obtain ⟨-, -, h_end, h_wrong⟩ := h_open.counts
    rw [h_pending] at h_ok
    simp only at h_ok
    split at h_ok
    · cases h_ok
    · rename_i h_method
      split at h_ok
      · cases h_ok
      · rename_i secret h_secret
        obtain ⟨h_bind, -⟩ := Option.filter_eq_some_iff.mp h_secret
        obtain ⟨user, h_user, h_user_secret⟩ := Option.bind_eq_some_iff.mp h_bind
        obtain ⟨h_account, h_enabled⟩ := Option.filter_eq_some_iff.mp h_user
        split at h_ok
        · cases h_ok
        · split at h_ok
          · rename_i h_valid
            exact ⟨c, user, secret, h_row, by simpa using h_method, Nat.le_of_not_lt h_time,
              h_account, h_enabled, h_user_secret, h_valid, h_wrong, h_end⟩
          · split at h_ok
            · cases h_ok
            · cases h_ok

theorem poll_proof (h : Inv p) {token : Option String} (h_ok : (p.pollStatus id).2 = .approved token) :
    ∃ c, p.challenges id = some c ∧ (∃ e ∈ history p.log id, Approval e id c.userId) ∧
      (history p.log id).countP isEnd = 0 := by
  rw [Panel.pollStatus] at h_ok
  cases h_row : p.challenges id with
  | none =>
    rw [h_row] at h_ok
    cases h_ok
  | some c =>
    simp only [h_row] at h_ok
    split at h_ok
    · cases h_ok
    · have h_status : c.status = .approved := by
        rw [Panel.pollRow] at h_ok
        cases h_status : c.status with
        | approved => rfl
        | _ =>
          rw [h_status] at h_ok
          cases h_ok
      have h_inv := (h.ids id).row_inv c h_row
      have h_self := (h.ids id).row_id c h_row
      obtain ⟨n, e, h_past, h_e⟩ := h_inv.approved h_status
      refine ⟨c, rfl, ⟨e, ?_, h_self ▸ h_e⟩, (h_inv.approved_counts h_status).2.2⟩
      rw [h_past]
      exact List.mem_append_right _ (List.mem_singleton_self e)

theorem approve_proof (h : Inv p) {telegramId : Nat} {token : String}
    (h_ok : (p.resolveTelegramChallenge id .approve telegramId token).2 = .ok ()) :
    ∃ c tgUser, p.challenges id = some c ∧ p.now ≤ c.expiresAt ∧
      findBy ITelegramUser.id p.telegramUsers telegramId = some tgUser ∧ tgUser.isActive = true ∧
      tgUser.userId = c.userId ∧ (history p.log id).countP isSession = 0 ∧
      (history p.log id).countP isEnd = 0 := by
  rw [Panel.resolveTelegramChallenge] at h_ok
  cases h_row : p.challenges id with
  | none =>
    rw [h_row] at h_ok
    cases h_ok
  | some c =>
    simp only [h_row] at h_ok
    split at h_ok
    · cases h_ok
    · rename_i h_status
      rw [ne_eq, not_not] at h_status
      split at h_ok
      · cases h_ok
      · rename_i h_time
        split at h_ok
        · cases h_ok
        · split at h_ok
          · cases h_ok
          · rename_i tgUser h_found
            split at h_ok
            · cases h_ok
            · rename_i h_linked
              rw [not_or, Bool.not_eq_false, ne_eq, not_not] at h_linked
              obtain ⟨h_self, h_open⟩ := h.open_row h_row h_status h_time
              obtain ⟨h_sessions, -, h_end, -⟩ := h_open.counts
              exact ⟨c, tgUser, rfl, Nat.le_of_not_lt h_time, h_found, h_linked.1, h_linked.2,
                h_sessions, h_end⟩

end Proof

/-- Over every run whose send calls do not overwrite an answer given before they returned. -/
theorem grants_on_proof {valid : Nat → String → String → Bool} {p : Panel}
    (h : (machine valid).ReachableUnder (fun p e => freshSend p e = true) p) (id : String) :
    GrantsOnProof valid p id := by
  have h_inv := inv_reachable h
  exact ⟨(h_inv.ids id).completions, (h_inv.ids id).sessions,
    fun _ _ _ _ h_ok => verify_proof h_inv h_ok, fun _ h_ok => poll_proof h_inv h_ok,
    fun _ _ h_ok => approve_proof h_inv h_ok⟩

/-- The account `alice`, with Telegram as its second factor. -/
def alice : Account where
  id := "a"
  username := "alice"
  password := "hash"
  isAdmin := false
  roles := []
  grants := .empty
  extPermissions := []
  access := { levels := .empty, ext := [] }
  serversRestrict := { enabled := false, allowed := [] }
  totpSecret := none
  totpEnabled := false
  telegram2faEnabled := true
  twofaPrimary := some .telegram

/-- A panel with the account, linked to the Telegram user 7. -/
def linkedPanel : Panel where
  accounts := fun id => if id = "a" then some alice else none
  telegramUsers :=
    [{ id := 7, userId := "a", username := none, firstName := none, lastName := none
       linkedAt := 0, isActive := true, language := none }]

def noCode : Nat → String → String → Bool := fun _ _ _ => false

/-- A login that is approved after its message was sent. -/
def approvedLogin : List Event :=
  [.start alice .telegram none none "c", .sent 0 (some (7, 1)), .telegram "c" .approve 7 "t",
    .poll "c"]

theorem grants_on_proof_alice :
    ∃ p, (machine noCode).runUnder freshSend linkedPanel approvedLogin = some p ∧
      (history p.log "c").countP isCompletion = 1 ∧ GrantsOnProof noCode p "c" := by
  refine ⟨_, rfl, by decide +kernel, ?_⟩
  apply grants_on_proof
  have h_init : (machine noCode).ReachableUnder (fun p e => freshSend p e = true) linkedPanel :=
    .init ⟨rfl, rfl, rfl⟩
  exact (machine noCode).reachableUnder_of_runUnder approvedLogin h_init rfl

/-- The user denies before the send call has returned, which makes the challenge pending again;
    an approval then completes it. In the same way two approvals complete it twice. -/
theorem late_send_reopens_challenge :
    (∃ p, (machine noCode).run linkedPanel
        [.start alice .telegram none none "c", .telegram "c" .deny 7 "", .sent 0 (some (7, 1)),
          .telegram "c" .approve 7 "t", .poll "c"] = some p ∧
      (history p.log "c").map isEnd = [true, false, true] ∧
      Entry.denied "c" ∈ (history p.log "c").take 1 ∧
      Entry.handedOver "c" ∈ (history p.log "c").drop 2) ∧
    ∃ p, (machine noCode).run linkedPanel
        [.start alice .telegram none none "c", .telegram "c" .approve 7 "t", .poll "c",
          .sent 0 (some (7, 1)), .telegram "c" .approve 7 "u", .poll "c"] = some p ∧
      (history p.log "c").countP isCompletion = 2 :=
  ⟨⟨_, rfl, by decide +kernel, by decide +kernel, by decide +kernel⟩, _, rfl, by decide +kernel⟩

end Kubek.Twofa
