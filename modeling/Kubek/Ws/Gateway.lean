/-
  Kubek.Ws.Gateway

  The WebSocket gateway over accounts and sessions (server.gateway.ts,
  room.service.ts, sessions.service.ts, app-events.service.ts).

  Accounts and sessions are what the database holds at the moment. Sockets are numbered
  in the order they connected; a socket that is disconnected left all its rooms and its
  `join` does nothing. An event is handled in a microtask of its own, some time after it
  was emitted; a handler that drops the sockets of sessions also awaits the list of the
  room's sockets. A subscription checks the account it read before its first await and
  joins the console room after it.
-/

import Kubek.Access.Areas
import Kubek.Lib.JsText
import Kubek.Lib.Machine

namespace Kubek.Ws

open Access JsText Transition

/-! ## Rooms -/

/-- `canReadConsole`. -/
def canReadConsole (user : Option AccessSubject) (server : ServerId) : Bool :=
  user.any fun u => canOnServer u .console .read server

/-- `canSeeServer` of an account that may be gone. -/
def seesServer (user : Option AccessSubject) (server : ServerId) : Bool :=
  user.any fun u => canSeeServer u server

/-- `getUserRoomName`. -/
def userRoom (userId : String) : String := "user:" ++ userId

def consoleRoom (server : ServerId) : String := "console:" ++ server

/-- `const [prefix, id] = room.split(":")`; an absent id reads as empty. -/
def roomParts (room : String) : String × String :=
  match split ':' room with
  | [] => ("", "")
  | [part] => (part, "")
  | part :: id :: _ => (part, id)

/-- `id || "-1"`: the server a subscription is about. -/
def subscribedServer (id : String) : ServerId := if id = "" then "-1" else id

/-! ## State -/

structure Session where
  user : String
  revoked : Bool
  deriving DecidableEq, Repr

/-- A socket that passed the handshake, with `data.user` and `data.session`. -/
structure Socket where
  user : String
  session : Nat
  rooms : List String
  connected : Bool
  deriving DecidableEq, Repr

/-- `client.join`; nothing after a disconnect. -/
def Socket.join (s : Socket) (room : String) : Socket :=
  if s.connected && !s.rooms.contains room then { s with rooms := s.rooms ++ [room] } else s

/-- `client.leave`. -/
def Socket.leave (s : Socket) (room : String) : Socket :=
  { s with rooms := s.rooms.filter (· ≠ room) }

/-- `client.disconnect(true)`. -/
def Socket.disconnect (s : Socket) : Socket := { s with connected := false, rooms := [] }

/-- The events the gateway drops sockets for. -/
inductive RevocationEvent
  | sessionRevoked (user : String) (session : Nat)
  /-- `revoked` are the sessions the update touched. -/
  | sessionsRevoked (user : String) (exceptSession : Option Nat) (revoked : List Nat)
  | accessChanged (user : String)
  | userDeleted (user : String)
  deriving DecidableEq, Repr

namespace RevocationEvent

def user : RevocationEvent → String
  | .sessionRevoked u _ | .sessionsRevoked u _ _ | .accessChanged u | .userDeleted u => u

/-- `bySession`: `none` when every socket of the user is dropped. -/
def bySession : RevocationEvent → Option (Nat → Bool)
  | .sessionRevoked _ session => some fun id => id == session
  | .sessionsRevoked _ exceptSession _ => some fun id => some id != exceptSession
  | .accessChanged _ | .userDeleted _ => none

/-- The sessions the event revokes. -/
def sessions : RevocationEvent → List Nat
  | .sessionRevoked _ session => [session]
  | .sessionsRevoked _ _ revoked => revoked
  | .accessChanged _ | .userDeleted _ => []

end RevocationEvent

/-- What happened, for stating what should hold; the gateway itself reads none of it. -/
structure History where
  /-- The values an account had since its last access change was handled. -/
  since : String → List AccessSubject := fun _ => []
  /-- Sessions whose revocation was handled. -/
  cut : List Nat := []
  /-- How many sockets there were when the last access change or deletion of an account
      was handled. -/
  barrier : String → Nat := fun _ => 0

structure Gateway where
  accounts : String → Option AccessSubject
  sessions : List Session := []
  sockets : List Socket := []
  /-- Emitted and not handled. -/
  events : List RevocationEvent := []
  /-- Handlers that await `fetchSockets`, with what it will return. -/
  drops : List (RevocationEvent × List Nat) := []
  /-- Subscriptions between their first await and the console room. -/
  joining : List (Nat × ServerId) := []
  /-- Unsubscriptions between their first await and leaving the console room. -/
  leaving : List (Nat × ServerId) := []
  history : History

namespace Gateway

variable (g : Gateway)

/-- Change the sockets, each by its number. -/
def mapSockets (f : Nat → Socket → Socket) : Gateway :=
  { g with sockets := g.sockets.mapIdx f }

/-- Change one socket. -/
def updateSocket (k : Nat) (f : Socket → Socket) : Gateway :=
  g.mapSockets fun i s => if i = k then f s else s

/-- The account has the value `account` from now on. -/
def storeAccount (user : String) (account : AccessSubject) : Gateway :=
  { g with
    accounts := Function.update g.accounts user (some account)
    history := { g.history with
      since := Function.update g.history.since user (account :: g.history.since user) } }

/-- `revoke` of sessions.service.ts. -/
def revoke (session : Nat) : Option Gateway :=
  match g.sessions[session]? with
  | none => none
  | some s =>
      some { g with
        sessions := g.sessions.set session { s with revoked := true }
        events := g.events ++ [.sessionRevoked s.user session] }

/-- The sessions `revokeAllForUser` touches. -/
def revocable (user : String) (exceptSession : Option Nat) : List Nat :=
  (List.range g.sessions.length).filter fun i =>
    (g.sessions[i]?.any (·.user == user)) && some i != exceptSession

/-- `revokeAllForUser`. -/
def revokeAllForUser (user : String) (exceptSession : Option Nat) : Gateway :=
  let touched := g.revocable user exceptSession
  { g with
    sessions := g.sessions.mapIdx fun i s =>
      if touched.contains i then { s with revoked := true } else s
    events := g.events ++ [.sessionsRevoked user exceptSession touched] }

/-- `handleConnection` of a client whose token is that of the session. -/
def connect (session : Nat) : Option Gateway :=
  match g.sessions[session]? with
  | none => none
  | some s =>
      if s.revoked || (g.accounts s.user).isNone then none
      else
        some { g with
          sockets := g.sockets ++ [⟨s.user, session, [userRoom s.user, "global"], true⟩] }

/-- `onRoomSubscribe` up to the await of the first join. -/
def subscribe (k : Nat) (room : String) : Option Gateway :=
  match g.sockets[k]? with
  | none => none
  | some socket =>
      if !socket.connected then none
      else
        let user := g.accounts socket.user
        let (first, id) := roomParts room
        let server := subscribedServer id
        if first ≠ "server" || !seesServer user server then some g
        else
          let joined := g.updateSocket k (·.join room)
          some (if canReadConsole user server then
            { joined with joining := joined.joining ++ [(k, server)] } else joined)

/-- The rest of a subscription. -/
def joinConsole (j : Nat) : Option Gateway :=
  match g.joining[j]? with
  | none => none
  | some (k, server) =>
      some { g.updateSocket k (·.join (consoleRoom server)) with
        joining := g.joining.eraseIdx j }

/-- `onRoomUnsubscribe` up to the await of the first leave. -/
def unsubscribe (k : Nat) (room : String) : Option Gateway :=
  match g.sockets[k]? with
  | none => none
  | some socket =>
      if !socket.connected then none
      else
        let (first, id) := roomParts room
        let left := g.updateSocket k (·.leave room)
        some (if first = "server" && id ≠ "" then
          { left with leaving := left.leaving ++ [(k, id)] } else left)

/-- The rest of an unsubscription. -/
def leaveConsole (j : Nat) : Option Gateway :=
  match g.leaving[j]? with
  | none => none
  | some (k, server) =>
      some { g.updateSocket k (·.leave (consoleRoom server)) with
        leaving := g.leaving.eraseIdx j }

/-- The sockets in a room, by number. -/
def socketsIn (room : String) : List Nat :=
  (List.range g.sockets.length).filter fun k => g.sockets[k]?.any (·.rooms.contains room)

/-- `disconnectSockets` of the room of an account. -/
def dropUser (user : String) : Gateway :=
  let inRoom := g.socketsIn (userRoom user)
  { g.mapSockets fun k s => if inRoom.contains k then s.disconnect else s with
    history := { g.history with
      since := Function.update g.history.since user (g.accounts user).toList
      barrier := Function.update g.history.barrier user g.sockets.length } }

/-- The handler of event `i`, up to its await. -/
def handle (i : Nat) : Option Gateway :=
  match g.events[i]? with
  | none => none
  | some event =>
      let taken := { g with events := g.events.eraseIdx i }
      match event.bySession with
      | some _ =>
          some { taken with
            drops := g.drops ++ [(event, g.socketsIn (userRoom event.user))] }
      | none => some (taken.dropUser event.user)

/-- The rest of the handler of a session event. -/
def finishDrop (j : Nat) : Option Gateway :=
  match g.drops[j]? with
  | none => none
  | some (event, fetched) =>
      let bySession := event.bySession.getD fun _ => false
      some { g.mapSockets fun k s =>
          if fetched.contains k && bySession s.session then s.disconnect else s with
        drops := g.drops.eraseIdx j
        history := { g.history with cut := g.history.cut ++ event.sessions } }

end Gateway

/-! ## Steps -/

inductive Event
  /-- An account is created or its stored access changes, whoever did it. -/
  | store (user : String) (account : AccessSubject)
  | deleteUser (user : String)
  | emitAccessChanged (user : String)
  | createSession (user : String)
  | revoke (session : Nat)
  | revokeAllForUser (user : String) (exceptSession : Option Nat)
  | connect (session : Nat)
  | subscribe (k : Nat) (room : String)
  | joinConsole (j : Nat)
  | unsubscribe (k : Nat) (room : String)
  | leaveConsole (j : Nat)
  /-- The client goes. -/
  | close (k : Nat)
  | handle (i : Nat)
  | finishDrop (j : Nat)

def step (g : Gateway) : Event → Option Gateway
  | .store user account => some (g.storeAccount user account)
  | .deleteUser user =>
      some { g with
        accounts := Function.update g.accounts user none
        events := g.events ++ [.userDeleted user] }
  | .emitAccessChanged user => some { g with events := g.events ++ [.accessChanged user] }
  | .createSession user => some { g with sessions := g.sessions ++ [⟨user, false⟩] }
  | .revoke session => g.revoke session
  | .revokeAllForUser user exceptSession => some (g.revokeAllForUser user exceptSession)
  | .connect session => g.connect session
  | .subscribe k room => g.subscribe k room
  | .joinConsole j => g.joinConsole j
  | .unsubscribe k room => g.unsubscribe k room
  | .leaveConsole j => g.leaveConsole j
  | .close k => some (g.updateSocket k Socket.disconnect)
  | .handle i => g.handle i
  | .finishDrop j => g.finishDrop j

/-- A panel that just started: accounts, and nothing connected. -/
def machine : Machine Gateway Event where
  init g := g.sockets = [] ∧ g.events = [] ∧ g.drops = [] ∧ g.joining = [] ∧
    g.leaving = [] ∧ g.history = { since := fun user => (g.accounts user).toList }
  step := step

end Kubek.Ws
