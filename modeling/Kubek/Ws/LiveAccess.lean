/-
  Kubek.Ws.LiveAccess

  Sockets follow the access of their account, as long as they stay in its room.

  Revocation finds sockets through the room `user:<id>` only. A client may leave any
  room it names, that one included, and is then missed by every later event
  (`left_user_room_keeps_console`). In every run in which no client leaves the room of
  its own account the gateway keeps its promises (`liveAccess_of_reachableUnder`).
-/

import Kubek.Ws.Gateway

namespace Kubek.Ws

open Access JsText Transition JsMap

/-- Live sockets follow current access. -/
structure LiveAccess (g : Gateway) : Prop where
  /-- A console room is open only to an account that could read that console at some
      moment since its last access change. -/
  console : ∀ (k : Nat) s server, g.sockets[k]? = some s → consoleRoom server ∈ s.rooms →
    ∃ account ∈ g.history.since s.user, canReadConsole (some account) server = true
  /-- No socket of a session whose revocation was handled. -/
  cut : ∀ (k : Nat) s, g.sockets[k]? = some s → s.session ∈ g.history.cut → s.connected = false
  /-- No socket from before the last handled access change or deletion of its account. -/
  barrier : ∀ (k : Nat) s, g.sockets[k]? = some s → k < g.history.barrier s.user →
    s.connected = false

/-- The client does not leave the room of its own account. -/
def keepsUserRoom (g : Gateway) : Event → Bool
  | .unsubscribe k room => !(g.sockets[k]?.any fun s => room == userRoom s.user)
  | _ => true

/-! ## Room names -/

theorem userRoom_ne_consoleRoom (user : String) (server : ServerId) :
    consoleRoom server ≠ userRoom user := by
  intro h
  have h_chars := congrArg String.toList h
  simp [consoleRoom, userRoom, String.toList_append] at h_chars

theorem global_ne_consoleRoom (server : ServerId) : consoleRoom server ≠ "global" := by
  intro h
  have h_chars := congrArg String.toList h
  simp [consoleRoom, String.toList_append] at h_chars

/-- A room that is parsed as a server room is no console room. -/
theorem consoleRoom_not_server {server : ServerId} {id : String} :
    roomParts (consoleRoom server) ≠ ("server", id) := by
  have h_head : (split ':' (consoleRoom server)).head? = some "console" :=
    split_head server.toList (by decide) (by simp [consoleRoom, String.toList_append])
  intro h
  rw [roomParts] at h
  split at h
  · rename_i h_nil
    rw [h_nil] at h_head
    cases h_head
  · rename_i part h_one
    rw [h_one] at h_head
    have h_part : part = "console" := by simpa using h_head
    have h_first := congrArg Prod.fst h
    rw [h_part] at h_first
    exact absurd h_first (show "console" ≠ "server" by decide)
  · rename_i part _ _ h_more
    rw [h_more] at h_head
    have h_part : part = "console" := by simpa using h_head
    have h_first := congrArg Prod.fst h
    rw [h_part] at h_first
    exact absurd h_first (show "console" ≠ "server" by decide)

/-! ## The invariant -/

/-- What an event not handled yet will cut was revoked, and its handler selects it. -/
def Revokes (sessions : List Session) (event : RevocationEvent) : Prop :=
  ∀ x ∈ event.sessions, (event.bySession.getD fun _ => false) x = true ∧
    sessions[x]? = some ⟨event.user, true⟩

/-- Everything the gateway keeps up between two steps. -/
structure GatewayInv (g : Gateway) : Prop where
  closed : ∀ (k : Nat) s, g.sockets[k]? = some s → s.connected = false → s.rooms = []
  inRoom : ∀ (k : Nat) s, g.sockets[k]? = some s → s.connected = true →
    userRoom s.user ∈ s.rooms
  owner : ∀ (k : Nat) s, g.sockets[k]? = some s →
    ∃ x, g.sessions[s.session]? = some x ∧ x.user = s.user
  current : ∀ user account, g.accounts user = some account → account ∈ g.history.since user
  console : ∀ (k : Nat) s server, g.sockets[k]? = some s → consoleRoom server ∈ s.rooms →
    ∃ account ∈ g.history.since s.user, canReadConsole (some account) server = true
  joining : ∀ k server, (k, server) ∈ g.joining → ∃ s, g.sockets[k]? = some s ∧
    (s.connected = true →
      ∃ account ∈ g.history.since s.user, canReadConsole (some account) server = true)
  events : ∀ event ∈ g.events, Revokes g.sessions event
  drops : ∀ event fetched, (event, fetched) ∈ g.drops → Revokes g.sessions event ∧
    ∀ (k : Nat) s, g.sockets[k]? = some s → s.connected = true → s.session ∈ event.sessions →
      k ∈ fetched
  cutRevoked : ∀ x ∈ g.history.cut, ∃ user, g.sessions[x]? = some ⟨user, true⟩
  cut : ∀ (k : Nat) s, g.sockets[k]? = some s → s.session ∈ g.history.cut → s.connected = false
  barrierLe : ∀ user, g.history.barrier user ≤ g.sockets.length
  barrier : ∀ (k : Nat) s, g.sockets[k]? = some s → k < g.history.barrier s.user →
    s.connected = false

/-- A change of one socket that keeps it honest: it stays who it is, does not come back,
    does not leave the room of its account, and enters a console room only with a reason. -/
structure HonestMove (g : Gateway) (s s' : Socket) : Prop where
  user : s'.user = s.user
  session : s'.session = s.session
  connected : s'.connected = true → s.connected = true
  closed : s'.connected = false → (s.connected = false → s.rooms = []) → s'.rooms = []
  inRoom : s'.connected = true → userRoom s.user ∈ s.rooms → userRoom s.user ∈ s'.rooms
  console : ∀ server, consoleRoom server ∈ s'.rooms → consoleRoom server ∈ s.rooms ∨
    ∃ account ∈ g.history.since s.user, canReadConsole (some account) server = true

namespace HonestMove

variable {g : Gateway} {s : Socket}

theorem refl (g : Gateway) (s : Socket) : HonestMove g s s where
  user := rfl
  session := rfl
  connected h := h
  closed h h_closed := h_closed h
  inRoom _ h := h
  console _ h := .inl h

theorem disconnect (g : Gateway) (s : Socket) : HonestMove g s s.disconnect where
  user := rfl
  session := rfl
  connected h := by cases h
  closed _ _ := rfl
  inRoom h := by cases h
  console server h := by cases h

theorem leave {room : String} (h : room ≠ userRoom s.user) : HonestMove g s (s.leave room) where
  user := rfl
  session := rfl
  connected h := h
  closed h_off h_closed := by
    have h_rooms : s.rooms = [] := h_closed h_off
    simp [Socket.leave, h_rooms]
  inRoom _ h_in := List.mem_filter.mpr ⟨h_in, by simpa using Ne.symm h⟩
  console _ h_in := .inl (List.mem_filter.mp h_in).1

theorem join {room : String} (h : ∀ server, room = consoleRoom server → s.connected = true →
      ∃ account ∈ g.history.since s.user, canReadConsole (some account) server = true) :
    HonestMove g s (s.join room) := by
  simp only [Socket.join]
  split
  · rename_i h_cond
    have h_on : s.connected = true := by
      simp only [Bool.and_eq_true] at h_cond
      exact h_cond.1
    refine ⟨rfl, rfl, fun h => h, fun h_off => ?_, fun _ h_in => ?_, fun server h_in => ?_⟩
    · rw [h_on] at h_off
      cases h_off
    · exact List.mem_append_left _ h_in
    · rcases List.mem_append.mp h_in with h_in | h_in
      · exact .inl h_in
      · exact .inr (h server (List.mem_singleton.mp h_in).symm h_on)
  · exact .refl g s

theorem trans {s' s'' : Socket} (h : HonestMove g s s') (h' : HonestMove g s' s'') :
    HonestMove g s s'' where
  user := h'.user.trans h.user
  session := h'.session.trans h.session
  connected h_on := h.connected (h'.connected h_on)
  closed h_off h_closed := h'.closed h_off fun h_mid => h.closed h_mid h_closed
  inRoom h_on h_in := h.user ▸ h'.inRoom h_on (h.user.symm ▸ h.inRoom (h'.connected h_on) h_in)
  console server h_in := by
    rcases h'.console server h_in with h_mid | h_reason
    · exact h.console server h_mid
    · exact .inr (h.user ▸ h_reason)

end HonestMove

namespace GatewayInv

variable {g g' : Gateway}

theorem liveAccess (h : GatewayInv g) : LiveAccess g where
  console := h.console
  cut := h.cut
  barrier := h.barrier

theorem init (h : machine.init g) : GatewayInv g := by
  obtain ⟨h_sockets, h_events, h_drops, h_joining, h_leaving, h_history⟩ := h
  constructor <;> simp [h_sockets, h_events, h_drops, h_joining, h_history]

theorem getElem?_mapSockets (f : Nat → Socket → Socket) {k : Nat} {s' : Socket}
    (h : (g.mapSockets f).sockets[k]? = some s') :
    ∃ s, g.sockets[k]? = some s ∧ s' = f k s := by
  rw [Gateway.mapSockets, List.getElem?_mapIdx] at h
  obtain ⟨s, h_s, h_eq⟩ := Option.map_eq_some_iff.mp h
  exact ⟨s, h_s, h_eq.symm⟩

/-- Honest moves of any sockets keep the invariant. -/
theorem mapSockets (h : GatewayInv g) {f : Nat → Socket → Socket}
    (h_f : ∀ k s, g.sockets[k]? = some s → HonestMove g s (f k s)) :
    GatewayInv (g.mapSockets f) where
  closed k s' hk h_off := by
    obtain ⟨s, h_s, rfl⟩ := getElem?_mapSockets f hk
    exact (h_f k s h_s).closed h_off (h.closed k s h_s)
  inRoom k s' hk h_on := by
    obtain ⟨s, h_s, rfl⟩ := getElem?_mapSockets f hk
    have h_move := h_f k s h_s
    rw [h_move.user]
    exact h_move.inRoom h_on (h.inRoom k s h_s (h_move.connected h_on))
  owner k s' hk := by
    obtain ⟨s, h_s, rfl⟩ := getElem?_mapSockets f hk
    rw [(h_f k s h_s).session, (h_f k s h_s).user]
    exact h.owner k s h_s
  current := h.current
  console k s' server hk h_in := by
    obtain ⟨s, h_s, rfl⟩ := getElem?_mapSockets f hk
    rw [(h_f k s h_s).user]
    rcases (h_f k s h_s).console server h_in with h_old | h_reason
    · exact h.console k s server h_s h_old
    · exact h_reason
  joining k server h_mem := by
    obtain ⟨s, h_s, h_reason⟩ := h.joining k server h_mem
    refine ⟨f k s, by simp [Gateway.mapSockets, h_s], fun h_on => ?_⟩
    rw [(h_f k s h_s).user]
    exact h_reason ((h_f k s h_s).connected h_on)
  events := h.events
  drops event fetched h_mem := by
    obtain ⟨h_revokes, h_fetched⟩ := h.drops event fetched h_mem
    refine ⟨h_revokes, fun k s' hk h_on h_session => ?_⟩
    obtain ⟨s, h_s, rfl⟩ := getElem?_mapSockets f hk
    exact h_fetched k s h_s ((h_f k s h_s).connected h_on) ((h_f k s h_s).session ▸ h_session)
  cutRevoked := h.cutRevoked
  cut k s' hk h_session := by
    obtain ⟨s, h_s, rfl⟩ := getElem?_mapSockets f hk
    by_contra h_on
    have h_off := h.cut k s h_s ((h_f k s h_s).session ▸ h_session)
    rw [(h_f k s h_s).connected (Bool.not_eq_false _ ▸ h_on)] at h_off
    cases h_off
  barrierLe user := by
    rw [Gateway.mapSockets, List.length_mapIdx]
    exact h.barrierLe user
  barrier k s' hk h_lt := by
    obtain ⟨s, h_s, rfl⟩ := getElem?_mapSockets f hk
    by_contra h_on
    have h_off := h.barrier k s h_s ((h_f k s h_s).user ▸ h_lt)
    rw [(h_f k s h_s).connected (Bool.not_eq_false _ ▸ h_on)] at h_off
    cases h_off

/-- The same for a change of one socket. -/
theorem updateSocket (h : GatewayInv g) {k : Nat} {f : Socket → Socket}
    (h_f : ∀ s, g.sockets[k]? = some s → HonestMove g s (f s)) :
    GatewayInv (g.updateSocket k f) := by
  refine h.mapSockets fun i s h_s => ?_
  by_cases h_i : i = k
  · subst h_i
    rw [if_pos rfl]
    exact h_f s h_s
  · rw [if_neg h_i]
    exact .refl g s

/-! ## Accounts and sessions -/

theorem storeAccount (h : GatewayInv g) (user : String) (account : AccessSubject) :
    GatewayInv (g.storeAccount user account) := by
  have h_since : ∀ u, g.history.since u ⊆ (g.storeAccount user account).history.since u := by
    intro u a h_a
    by_cases h_u : u = user
    · subst h_u
      simp [Gateway.storeAccount, h_a]
    · simpa [Gateway.storeAccount, Function.update_of_ne h_u] using h_a
  refine { h with current := ?_, console := ?_, joining := ?_ }
  · intro u a h_a
    by_cases h_u : u = user
    · subst h_u
      have h_eq : account = a := by simpa [Gateway.storeAccount] using h_a
      simp [Gateway.storeAccount, h_eq]
    · exact h_since u (h.current u a
        (by simpa [Gateway.storeAccount, Function.update_of_ne h_u] using h_a))
  · intro k s server h_s h_in
    obtain ⟨a, h_a, h_read⟩ := h.console k s server h_s h_in
    exact ⟨a, h_since _ h_a, h_read⟩
  · intro k server h_mem
    obtain ⟨s, h_s, h_reason⟩ := h.joining k server h_mem
    refine ⟨s, h_s, fun h_on => ?_⟩
    obtain ⟨a, h_a, h_read⟩ := h_reason h_on
    exact ⟨a, h_since _ h_a, h_read⟩

/-- Sessions change, but none loses its user or its revocation. -/
theorem setSessions (h : GatewayInv g) (sessions : List Session)
    (events : List RevocationEvent)
    (h_user : ∀ (x : Nat) old, g.sessions[x]? = some old →
      ∃ s, sessions[x]? = some s ∧ s.user = old.user ∧ (old.revoked = true → s.revoked = true))
    (h_events : ∀ event ∈ events, Revokes sessions event) :
    GatewayInv { g with sessions := sessions, events := g.events ++ events } := by
  have h_revoked : ∀ (x : Nat) user, g.sessions[x]? = some ⟨user, true⟩ →
      sessions[x]? = some ⟨user, true⟩ := by
    intro x user h_x
    obtain ⟨⟨u, r⟩, h_s, h_u, h_r⟩ := h_user x _ h_x
    have h_true : r = true := h_r rfl
    subst h_true h_u
    exact h_s
  have h_revokes : ∀ event, Revokes g.sessions event → Revokes sessions event :=
    fun event h_event x h_x => ⟨(h_event x h_x).1, h_revoked x _ (h_event x h_x).2⟩
  refine { h with owner := ?_, events := ?_, drops := ?_, cutRevoked := ?_ }
  · intro k s h_s
    obtain ⟨x, h_x, h_owner⟩ := h.owner k s h_s
    obtain ⟨y, h_y, h_same, -⟩ := h_user _ x h_x
    exact ⟨y, h_y, h_same.trans h_owner⟩
  · intro event h_event
    rcases List.mem_append.mp h_event with h_old | h_new
    · exact h_revokes event (h.events event h_old)
    · exact h_events event h_new
  · intro event fetched h_mem
    obtain ⟨h_event, h_fetched⟩ := h.drops event fetched h_mem
    exact ⟨h_revokes event h_event, h_fetched⟩
  · intro x h_x
    obtain ⟨user, h_user⟩ := h.cutRevoked x h_x
    exact ⟨user, h_revoked x user h_user⟩

/-- An event about an account revokes no session of its own. -/
theorem emit (h : GatewayInv g) {event : RevocationEvent} (h_none : event.sessions = []) :
    GatewayInv { g with events := g.events ++ [event] } := by
  refine h.setSessions g.sessions _ (fun x old h_x => ⟨old, h_x, rfl, id⟩) ?_
  intro e h_e x h_x
  rw [List.mem_singleton.mp h_e, h_none] at h_x
  cases h_x

theorem deleteUser (h : GatewayInv g) (user : String) :
    GatewayInv { g with
      accounts := Function.update g.accounts user none
      events := g.events ++ [.userDeleted user] } := by
  have h_emit : GatewayInv { g with events := g.events ++ [.userDeleted user] } := h.emit rfl
  refine { h_emit with current := fun u a h_a => ?_ }
  by_cases h_u : u = user
  · subst h_u
    simp at h_a
  · exact h.current u a (by simpa [Function.update_of_ne h_u] using h_a)

theorem revoke (h : GatewayInv g) {session : Nat} (h_g' : g.revoke session = some g') :
    GatewayInv g' := by
  simp only [Gateway.revoke] at h_g'
  split at h_g'
  · cases h_g'
  · rename_i s h_s
    cases h_g'
    have h_lt := (List.getElem?_eq_some_iff.mp h_s).1
    refine h.setSessions _ [.sessionRevoked s.user session] (fun x old h_x => ?_) ?_
    · by_cases h_eq : session = x
      · subst h_eq
        rw [h_s] at h_x
        cases h_x
        exact ⟨{ s with revoked := true }, List.getElem?_set_self h_lt, rfl, fun _ => rfl⟩
      · exact ⟨old, by rw [List.getElem?_set_ne h_eq]; exact h_x, rfl, id⟩
    · intro event h_event x h_x
      rw [List.mem_singleton.mp h_event] at h_x ⊢
      rw [List.mem_singleton.mp h_x]
      exact ⟨by simp [RevocationEvent.bySession], List.getElem?_set_self h_lt⟩

theorem mem_revocable {user : String} {exceptSession : Option Nat} {x : Nat} :
    x ∈ g.revocable user exceptSession ↔
      (∃ s, g.sessions[x]? = some s ∧ s.user = user) ∧ some x ≠ exceptSession := by
  simp only [Gateway.revocable, List.mem_filter, List.mem_range, Bool.and_eq_true,
    Option.any_eq_true, beq_iff_eq, bne_iff_ne]
  constructor
  · rintro ⟨-, h_user, h_ne⟩
    exact ⟨h_user, h_ne⟩
  · rintro ⟨⟨s, h_s, h_user⟩, h_ne⟩
    exact ⟨(List.getElem?_eq_some_iff.mp h_s).1, ⟨s, h_s, h_user⟩, h_ne⟩

theorem revokeAllForUser (h : GatewayInv g) (user : String) (exceptSession : Option Nat) :
    GatewayInv (g.revokeAllForUser user exceptSession) := by
  refine h.setSessions _ _ (fun x old h_x => ?_) ?_
  · rw [List.getElem?_mapIdx, h_x, Option.map_some]
    refine ⟨_, rfl, ?_, ?_⟩
    · split <;> rfl
    · intro h_old
      split
      · rfl
      · exact h_old
  · intro event h_event x h_x
    rw [List.mem_singleton.mp h_event] at h_x ⊢
    have h_touched : x ∈ g.revocable user exceptSession := h_x
    obtain ⟨⟨s, h_s, h_user⟩, h_ne⟩ := mem_revocable.mp h_touched
    refine ⟨by simpa [RevocationEvent.bySession] using h_ne, ?_⟩
    rw [List.getElem?_mapIdx, h_s, Option.map_some, if_pos (by simpa using h_touched)]
    simp [RevocationEvent.user, h_user]

theorem createSession (h : GatewayInv g) (user : String) :
    GatewayInv { g with sessions := g.sessions ++ [⟨user, false⟩] } := by
  have h_set := h.setSessions (g.sessions ++ [⟨user, false⟩]) []
    (fun x old h_x => ⟨old, ?_, rfl, id⟩) (by simp)
  · simpa using h_set
  · rw [List.getElem?_append_left (List.getElem?_eq_some_iff.mp h_x).1]
    exact h_x

/-! ## Sockets -/

theorem connect (h : GatewayInv g) {session : Nat} (h_g' : g.connect session = some g') :
    GatewayInv g' := by
  simp only [Gateway.connect] at h_g'
  split at h_g'
  · cases h_g'
  rename_i x h_x
  split at h_g'
  · cases h_g'
  rename_i h_ok
  cases h_g'
  have h_live : x.revoked = false := by
    simp only [Bool.or_eq_true, not_or, Bool.not_eq_true] at h_ok
    exact h_ok.1
  -- every socket is an old one or the new one
  have h_cases : ∀ {k : Nat} {s : Socket},
      (g.sockets ++ [⟨x.user, session, [userRoom x.user, "global"], true⟩])[k]? = some s →
        g.sockets[k]? = some s ∨ (k = g.sockets.length ∧
          s = ⟨x.user, session, [userRoom x.user, "global"], true⟩) := by
    intro k s h_s
    rw [List.getElem?_append] at h_s
    split at h_s
    · exact .inl h_s
    · have h_mem := List.mem_of_getElem? h_s
      have h_lt := (List.getElem?_eq_some_iff.mp h_s).1
      simp only [List.length_singleton] at h_lt
      exact .inr ⟨by omega, List.mem_singleton.mp h_mem⟩
  have h_not_revoked : ∀ user, g.sessions[session]? ≠ some ⟨user, true⟩ := by
    intro user h_rev
    rw [h_x] at h_rev
    cases h_rev
    cases h_live
  refine ⟨?_, ?_, ?_, h.current, ?_, ?_, h.events, ?_, h.cutRevoked, ?_, ?_, ?_⟩
  · intro k s h_s h_off
    rcases h_cases h_s with h_old | ⟨-, rfl⟩
    · exact h.closed k s h_old h_off
    · cases h_off
  · intro k s h_s h_on
    rcases h_cases h_s with h_old | ⟨-, rfl⟩
    · exact h.inRoom k s h_old h_on
    · exact List.mem_cons_self
  · intro k s h_s
    rcases h_cases h_s with h_old | ⟨-, rfl⟩
    · exact h.owner k s h_old
    · exact ⟨x, h_x, rfl⟩
  · intro k s server h_s h_in
    rcases h_cases h_s with h_old | ⟨-, rfl⟩
    · exact h.console k s server h_old h_in
    · rcases List.mem_cons.mp h_in with h_eq | h_in
      · exact absurd h_eq (userRoom_ne_consoleRoom _ _)
      · exact absurd (List.mem_singleton.mp h_in) (global_ne_consoleRoom _)
  · intro k server h_mem
    obtain ⟨s, h_s, h_reason⟩ := h.joining k server h_mem
    refine ⟨s, ?_, h_reason⟩
    rw [List.getElem?_append_left (List.getElem?_eq_some_iff.mp h_s).1]
    exact h_s
  · intro event fetched h_mem
    obtain ⟨h_event, h_fetched⟩ := h.drops event fetched h_mem
    refine ⟨h_event, fun k s h_s h_on h_session => ?_⟩
    rcases h_cases h_s with h_old | ⟨-, rfl⟩
    · exact h_fetched k s h_old h_on h_session
    · exact absurd (h_event session h_session).2 (h_not_revoked _)
  · intro k s h_s h_cut
    rcases h_cases h_s with h_old | ⟨-, rfl⟩
    · exact h.cut k s h_old h_cut
    · obtain ⟨user, h_user⟩ := h.cutRevoked session h_cut
      exact absurd h_user (h_not_revoked user)
  · intro user
    rw [List.length_append]
    exact Nat.le_add_right_of_le (h.barrierLe user)
  · intro k s h_s h_lt
    rcases h_cases h_s with h_old | ⟨rfl, rfl⟩
    · exact h.barrier k s h_old h_lt
    · exact absurd h_lt (Nat.not_lt.mpr (h.barrierLe _))

theorem subscribe (h : GatewayInv g) {k : Nat} {room : String}
    (h_g' : g.subscribe k room = some g') : GatewayInv g' := by
  simp only [Gateway.subscribe] at h_g'
  split at h_g'
  · cases h_g'
  rename_i socket h_socket
  split at h_g'
  · cases h_g'
  split at h_g'
  · cases h_g'
    exact h
  rename_i h_ok
  have h_first : (roomParts room).1 = "server" := by
    simp only [Bool.or_eq_true, decide_eq_true_eq, not_or, ne_eq, Decidable.not_not] at h_ok
    exact h_ok.1
  have h_joined : GatewayInv (g.updateSocket k (·.join room)) := by
    refine h.updateSocket fun s h_s => .join fun server h_room _ => ?_
    subst h_room
    exact absurd (show roomParts (consoleRoom server) = ("server", _) from Prod.ext h_first rfl)
      consoleRoom_not_server
  split at h_g'
  · -- the account read before the await may read the console
    rename_i h_read
    cases h_g'
    refine { h_joined with joining := fun i server h_mem => ?_ }
    rcases List.mem_append.mp h_mem with h_old | h_new
    · exact h_joined.joining i server h_old
    · obtain ⟨rfl, rfl⟩ := Prod.mk.inj (List.mem_singleton.mp h_new)
      refine ⟨socket.join room, by simp [Gateway.updateSocket, Gateway.mapSockets, h_socket],
        fun _ => ?_⟩
      have h_user : (socket.join room).user = socket.user := by
        simp only [Socket.join]
        split <;> rfl
      rw [h_user]
      cases h_account : g.accounts socket.user with
      | none =>
        rw [h_account] at h_read
        cases h_read
      | some account =>
        rw [h_account] at h_read
        exact ⟨account, h.current _ _ h_account, h_read⟩
  · cases h_g'
    exact h_joined

theorem joinConsole (h : GatewayInv g) {j : Nat} (h_g' : g.joinConsole j = some g') :
    GatewayInv g' := by
  simp only [Gateway.joinConsole] at h_g'
  split at h_g'
  · cases h_g'
  rename_i k server h_j
  cases h_g'
  obtain ⟨s₀, h_s₀, h_reason⟩ := h.joining k server (List.mem_of_getElem? h_j)
  have h_joined : GatewayInv (g.updateSocket k (·.join (consoleRoom server))) := by
    refine h.updateSocket fun s h_s => .join fun server' h_room h_on => ?_
    rw [h_s₀] at h_s
    cases h_s
    have h_server : server = server' := by simpa [consoleRoom] using h_room
    exact h_server ▸ h_reason h_on
  exact { h_joined with
    joining := fun i server' h_mem => h_joined.joining i server' (List.mem_of_mem_eraseIdx h_mem) }

theorem unsubscribe (h : GatewayInv g) {k : Nat} {room : String}
    (h_guard : keepsUserRoom g (.unsubscribe k room) = true)
    (h_g' : g.unsubscribe k room = some g') : GatewayInv g' := by
  simp only [Gateway.unsubscribe] at h_g'
  split at h_g'
  · cases h_g'
  rename_i socket h_socket
  split at h_g'
  · cases h_g'
  cases h_g'
  have h_ne : room ≠ userRoom socket.user := by
    simpa [keepsUserRoom, h_socket] using h_guard
  have h_left : GatewayInv (g.updateSocket k (·.leave room)) := by
    refine h.updateSocket fun s h_s => ?_
    rw [h_socket] at h_s
    cases h_s
    exact .leave h_ne
  split
  · exact { h_left with }
  · exact h_left

theorem leaveConsole (h : GatewayInv g) {j : Nat} (h_g' : g.leaveConsole j = some g') :
    GatewayInv g' := by
  simp only [Gateway.leaveConsole] at h_g'
  split at h_g'
  · cases h_g'
  rename_i k server h_j
  cases h_g'
  have h_left : GatewayInv (g.updateSocket k (·.leave (consoleRoom server))) :=
    h.updateSocket fun s _ => .leave (userRoom_ne_consoleRoom _ _)
  exact { h_left with }

/-! ## Handlers -/

theorem mem_socketsIn {room : String} {k : Nat} {s : Socket} (h_s : g.sockets[k]? = some s)
    (h_in : room ∈ s.rooms) : k ∈ g.socketsIn room := by
  refine List.mem_filter.mpr ⟨List.mem_range.mpr (List.getElem?_eq_some_iff.mp h_s).1, ?_⟩
  simpa [h_s] using h_in

/-- Every socket of the account is in its room and goes. -/
theorem dropUser (h : GatewayInv g) (user : String) : GatewayInv (g.dropUser user) := by
  let drop : Nat → Socket → Socket := fun k s =>
    if (g.socketsIn (userRoom user)).contains k then s.disconnect else s
  have h_dropped : GatewayInv (g.mapSockets drop) := by
    refine h.mapSockets fun k s _ => ?_
    show HonestMove g s (if (g.socketsIn (userRoom user)).contains k then s.disconnect else s)
    split
    · exact .disconnect g s
    · exact .refl g s
  have h_none : ∀ (k : Nat) s', (g.mapSockets drop).sockets[k]? = some s' → s'.user = user →
      s'.connected = false := by
    intro k s' h_k h_user
    obtain ⟨s, h_s, h_eq⟩ := getElem?_mapSockets _ h_k
    by_cases h_in : (g.socketsIn (userRoom user)).contains k
    · rw [h_eq, show drop k s = s.disconnect from if_pos h_in]
      rfl
    · rw [show drop k s = s from if_neg h_in] at h_eq
      subst h_eq
      by_contra h_on
      have h_room : userRoom user ∈ s'.rooms :=
        h_user ▸ h.inRoom k s' h_s (Bool.not_eq_false _ ▸ h_on)
      exact h_in (List.contains_iff_mem.mpr (mem_socketsIn h_s h_room))
  refine ⟨h_dropped.closed, h_dropped.inRoom, h_dropped.owner, ?_, ?_, ?_, h_dropped.events,
    h_dropped.drops, h_dropped.cutRevoked, h_dropped.cut, ?_, ?_⟩
  · intro u account h_account
    by_cases h_u : u = user
    · subst h_u
      have h_some : g.accounts u = some account := h_account
      simp [Gateway.dropUser, h_some]
    · simpa [Gateway.dropUser, Function.update_of_ne h_u] using h.current u account h_account
  · intro k s server h_k h_in
    by_cases h_u : s.user = user
    · rw [h_dropped.closed k s h_k (h_none k s h_k h_u)] at h_in
      cases h_in
    · have h_old := h_dropped.console k s server h_k h_in
      simpa [Gateway.dropUser, Gateway.mapSockets, Function.update_of_ne h_u] using h_old
  · intro k server h_mem
    obtain ⟨s, h_k, h_reason⟩ := h_dropped.joining k server h_mem
    refine ⟨s, h_k, fun h_on => ?_⟩
    by_cases h_u : s.user = user
    · rw [h_none k s h_k h_u] at h_on
      cases h_on
    · have h_old := h_reason h_on
      simpa [Gateway.dropUser, Gateway.mapSockets, Function.update_of_ne h_u] using h_old
  · intro u
    have h_length : (g.dropUser user).sockets.length = g.sockets.length := List.length_mapIdx
    rw [h_length]
    by_cases h_u : u = user
    · subst h_u
      simp [Gateway.dropUser]
    · simpa [Gateway.dropUser, Function.update_of_ne h_u] using h.barrierLe u
  · intro k s h_k h_lt
    by_cases h_u : s.user = user
    · exact h_none k s h_k h_u
    · refine h_dropped.barrier k s h_k ?_
      simpa [Gateway.dropUser, Gateway.mapSockets, Function.update_of_ne h_u] using h_lt

theorem handle (h : GatewayInv g) {i : Nat} (h_g' : g.handle i = some g') : GatewayInv g' := by
  simp only [Gateway.handle] at h_g'
  split at h_g'
  · cases h_g'
  rename_i event h_i
  have h_event := h.events event (List.mem_of_getElem? h_i)
  have h_taken : GatewayInv { g with events := g.events.eraseIdx i } :=
    { h with events := fun e h_e => h.events e (List.mem_of_mem_eraseIdx h_e) }
  split at h_g'
  · -- the sockets of the room are fetched; a socket to be cut is among them
    cases h_g'
    refine { h_taken with drops := fun e fetched h_mem => ?_ }
    rcases List.mem_append.mp h_mem with h_old | h_new
    · exact h.drops e fetched h_old
    · obtain ⟨rfl, rfl⟩ := Prod.mk.inj (List.mem_singleton.mp h_new)
      refine ⟨h_event, fun k s h_s h_on h_session => ?_⟩
      have h_old : g.sockets[k]? = some s := h_s
      obtain ⟨x, h_x, h_owner⟩ := h.owner k s h_old
      have h_revoked := (h_event s.session h_session).2
      rw [h_x] at h_revoked
      cases h_revoked
      have h_user : e.user = s.user := h_owner
      exact h_user ▸ mem_socketsIn h_old (h.inRoom k s h_old h_on)
  · cases h_g'
    exact h_taken.dropUser event.user

theorem finishDrop (h : GatewayInv g) {j : Nat} (h_g' : g.finishDrop j = some g') :
    GatewayInv g' := by
  simp only [Gateway.finishDrop] at h_g'
  split at h_g'
  · cases h_g'
  rename_i event fetched h_j
  cases h_g'
  obtain ⟨h_event, h_fetched⟩ := h.drops event fetched (List.mem_of_getElem? h_j)
  have h_dropped : GatewayInv (g.mapSockets fun k s =>
      if fetched.contains k && (event.bySession.getD fun _ => false) s.session then s.disconnect
      else s) := by
    refine h.mapSockets fun k s _ => ?_
    split
    · exact .disconnect g s
    · exact .refl g s
  refine { h_dropped with drops := ?_, cutRevoked := ?_, cut := ?_ }
  · intro e f h_mem
    exact h_dropped.drops e f (List.mem_of_mem_eraseIdx h_mem)
  · intro x h_x
    rcases List.mem_append.mp h_x with h_old | h_new
    · exact h.cutRevoked x h_old
    · exact ⟨event.user, (h_event x h_new).2⟩
  · intro k s' h_k h_cut
    rcases List.mem_append.mp h_cut with h_old | h_new
    · exact h_dropped.cut k s' h_k h_old
    · obtain ⟨s, h_s, rfl⟩ := getElem?_mapSockets _ h_k
      split
      · rfl
      · rename_i h_kept
        rw [if_neg h_kept] at h_new
        by_contra h_on
        refine h_kept ?_
        have h_in := h_fetched k s h_s (Bool.not_eq_false _ ▸ h_on) h_new
        have h_sel := (h_event s.session h_new).1
        simp [h_in, h_sel]

/-- One step of a run in which nobody leaves the room of its own account. -/
theorem step {e : Event} (h : GatewayInv g) (h_guard : keepsUserRoom g e = true)
    (h_step : Ws.step g e = some g') : GatewayInv g' := by
  cases e with
  | store user account =>
    cases h_step
    exact h.storeAccount user account
  | deleteUser user =>
    cases h_step
    exact h.deleteUser user
  | emitAccessChanged user =>
    cases h_step
    exact h.emit rfl
  | createSession user =>
    cases h_step
    exact h.createSession user
  | revoke session => exact h.revoke h_step
  | revokeAllForUser user exceptSession =>
    cases h_step
    exact h.revokeAllForUser user exceptSession
  | connect session => exact h.connect h_step
  | subscribe k room => exact h.subscribe h_step
  | joinConsole j => exact h.joinConsole h_step
  | unsubscribe k room => exact h.unsubscribe h_guard h_step
  | leaveConsole j => exact h.leaveConsole h_step
  | close k =>
    cases h_step
    exact h.updateSocket fun s _ => .disconnect g s
  | handle i => exact h.handle h_step
  | finishDrop j => exact h.finishDrop h_step

end GatewayInv

/-- **Live sockets follow current access**, in every run in which no client leaves the room
    of its own account. -/
theorem liveAccess_of_reachableUnder {g : Gateway}
    (h : machine.ReachableUnder (fun g e => keepsUserRoom g e = true) g) : LiveAccess g := by
  refine GatewayInv.liveAccess (Machine.ReachableUnder.invariant ?_ ?_ h)
  · exact fun g h_init => GatewayInv.init h_init
  · exact fun g e g' h_inv h_guard h_step => h_inv.step h_guard h_step

/-! ## A client that leaves its own room -/

/-- An account that reads every console, and the same account without access. -/
def watcher : AccessSubject where
  isAdmin := false
  access := { levels := JsObject.empty.set .console .read, ext := [] }
  serversRestrict := { enabled := false, allowed := [] }

def locked : AccessSubject := { watcher with access := { levels := .empty, ext := [] } }

/-- A panel with the account `a`. -/
def watchedPanel : Gateway where
  accounts user := if user = "a" then some watcher else none
  history := { since := fun user => (if user = "a" then some watcher else none).toList }

theorem watchedPanel_init : machine.init watchedPanel := ⟨rfl, rfl, rfl, rfl, rfl, rfl⟩

/-- The account opens a console and later loses it. -/
def watchThenLock : List Event :=
  [.createSession "a", .connect 0, .subscribe 0 "server:x", .joinConsole 0,
   .store "a" locked, .emitAccessChanged "a", .handle 0]

theorem liveAccess_watchThenLock :
    ∃ g, machine.runUnder keepsUserRoom watchedPanel watchThenLock = some g ∧
      g.sockets.map Socket.connected = [false] ∧ LiveAccess g :=
  ⟨_, rfl, rfl, liveAccess_of_reachableUnder
    (machine.reachableUnder_of_runUnder watchThenLock (.init watchedPanel_init) rfl)⟩

/-- The same with a message that leaves the room of the account. -/
def leaveThenLock : List Event :=
  [.createSession "a", .connect 0, .subscribe 0 "server:x", .joinConsole 0,
   .unsubscribe 0 "user:a", .store "a" locked, .emitAccessChanged "a", .handle 0]

/-- The event finds no socket, and the console stays open without access. -/
theorem left_user_room_keeps_console :
    ¬ ∀ g : Gateway, machine.Reachable g → LiveAccess g := by
  intro h
  have h_reach : machine.Reachable ((machine.run watchedPanel leaveThenLock).get rfl) :=
    machine.reachable_of_run leaveThenLock (.init watchedPanel_init) (Option.some_get _).symm
  have h_console := (h _ h_reach).barrier 0 ⟨"a", 0, ["global", "server:x", "console:x"], true⟩
    rfl (by decide)
  cases h_console
end Kubek.Ws
