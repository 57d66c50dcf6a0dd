/-
  Kubek.Networks.Wizard

  Runs of the network wizard (`network-wizard.service.ts`, `wizard-spec.service.ts`,
  `new-server-creator.service.ts`) over the servers, the files and the network tables that they
  share with each other and with all other requests.

  A run creates its servers, drafts the network, installs the Fabric mod, plans the edits of
  the config files, writes them one by one and stores the network. Everything but the store
  waits for something, and may fail there. A run that fails discards the servers it created;
  what it has written to the servers that were there before stays.

  Of each run we keep the files as they would be without it. A failed run is undone when the
  servers it named have these files, and the runs that fail before they change a file of such
  a server are (`undone_or_joined`).
-/

import Kubek.Networks.SharedSecret

namespace Kubek.Networks.Wizard

open Properties (Text trim unitsOf)
open SharedSecret (Files GeneratedSecret)
open SharedSecret.Estate (filesOf writesOf)
open Transition

/-! ## Servers, files and networks -/

/-- What the blueprint of a server is to a network. -/
inductive Role
  /-- Velocity, in a container or not. -/
  | proxy (docker : Bool)
  | backend (kind : BackendForwardingKind)
  | other
  deriving DecidableEq, Repr

def Role.isProxy : Role → Bool
  | .proxy _ => true
  | _ => false

def Role.isBackend : Role → Bool
  | .backend _ => true
  | _ => false

/-- A row of `servers`. -/
structure Server where
  id : Text
  name : Text
  gameVersion : Option Text
  port : Nat
  running : Bool
  role : Role
  deriving DecidableEq

/-- The id of a network, which is made up when it is stored. -/
inductive NetworkId
  | stored (n : Nat)
  /-- Of the network that a wizard run stores. -/
  | ofRun (i : Nat)
  deriving DecidableEq, Repr

structure NetworkRecord where
  id : NetworkId
  name : Text
  proxyServerId : Text
  forwardingMode : ForwardingMode

/-- What one step does to the server folders. -/
inductive FileOp
  | write (id : Text) (path : String) (text : Text)
  | removeFolder (id : Text)

def FileOp.apply (files : Files) : FileOp → Files
  | .write id path text => fun i p => if i = id ∧ p = path then some text else files i p
  | .removeFolder id => fun i p => if i = id then none else files i p

/-! ## The specification of a run -/

/-- What the parts of a specification are called before their servers are there. -/
inductive Ref
  | proxy
  /-- `new:i`. -/
  | fresh (i : Nat)
  | server (id : Text)
  deriving DecidableEq, Repr

structure NewServerOptions where
  name : Text
  version : Text
  role : Role

structure NetworkWizardProps where
  name : Text
  proxyServerId : Option Text
  newProxy : Option NewServerOptions
  backendIds : List Text
  newBackends : List NewServerOptions
  tryOrder : List Ref
  forwardingMode : Option ForwardingMode
  proxySettings : String → Option SettingValue

structure NewServerSpec where
  ref : Ref
  name : Text
  version : Text
  port : Nat
  role : Role
  aliasName : Text
  tryOrder : Option Nat

structure ExistingBackendSpec where
  server : Server
  aliasName : Text
  tryOrder : Option Nat

inductive ProxySpec
  | server (server : Server)
  | create (item : NewServerSpec)

structure WizardSpec where
  name : Text
  mode : ForwardingMode
  proxy : ProxySpec
  existing : List ExistingBackendSpec
  created : List NewServerSpec
  proxySettings : String → Option SettingValue

/-- The new servers in the order in which they are created. -/
def WizardSpec.queue (spec : WizardSpec) : List NewServerSpec :=
  match spec.proxy with
  | .server _ => spec.created
  | .create item => item :: spec.created

/-- The servers that are there before the run. -/
def WizardSpec.existingServers (spec : WizardSpec) : List Server :=
  match spec.proxy with
  | .server server => server :: spec.existing.map ExistingBackendSpec.server
  | .create _ => spec.existing.map ExistingBackendSpec.server

/-! ## The state -/

inductive Phase
  | creating (todo : List NewServerSpec)
  /-- The server has its row, its install is under way. -/
  | installing (server : Server) (item : NewServerSpec) (todo : List NewServerSpec)
  | fabric (draft : NetworkDraft) (todo : List DraftBackend)
  | writing (draft : NetworkDraft) (todo : List (Text × FileEdit))
  | failed
  | succeeded

structure Run where
  spec : WizardSpec
  phase : Phase
  created : List (Ref × Server) := []
  /-- All servers the run has made a row of. -/
  made : List Server := []
  /-- The files it has written on servers that it did not make. -/
  changed : List (Text × String) := []
  /-- The files as they would be without the run. -/
  without : Files

structure World where
  servers : List Server
  /-- The ids of the servers that were deleted. -/
  gone : List Text := []
  files : Files
  networks : List NetworkRecord := []
  members : List (NetworkId × Member) := []
  runs : List Run := []

/-- The libraries of the panel. -/
structure Env where
  velocity : VelocityLib
  yaml : Yaml
  /-- `toLowerCase().normalize("NFKD")`. -/
  fold : Text → Text
  /-- `toLowerCase()`. -/
  lower : Text → Text

/-- `findByServer`. -/
def World.taken (w : World) (id : Text) : Bool :=
  w.networks.any (fun n => n.proxyServerId == id) || w.members.any fun m => m.2.serverId == id

/-- `requireServer`. -/
def World.server (w : World) (id : Text) : Option Server := w.servers.find? fun s => s.id == id

/-- A step on files, by a run or by someone else. -/
def World.alter (w : World) (own : Option Nat) (op : FileOp) : World :=
  { w with
    files := op.apply w.files
    runs := w.runs.mapIdx fun j r =>
      if own = some j then r else { r with without := op.apply r.without } }

/-- A server is deleted with its folder, its memberships and the network behind it. -/
def World.delete (w : World) (own : Option Nat) (id : Text) : World :=
  let lost := (w.networks.filter fun n => n.proxyServerId == id).map NetworkRecord.id
  { w.alter own (.removeFolder id) with
    servers := w.servers.filter fun s => s.id != id
    gone := id :: w.gone
    networks := w.networks.filter fun n => n.proxyServerId != id
    members := w.members.filter fun m => m.2.serverId != id && !lost.contains m.1 }

/-- A new row of `servers`. -/
def World.insert (w : World) (s : Server) : World := { w with servers := w.servers ++ [s] }

/-- `NetworksRepository.create`. -/
def World.create (w : World) (network : NetworkRecord) (rows : List Member) : World :=
  { w with
    networks := w.networks ++ [network]
    members := w.members ++ rows.map fun m => (network.id, m) }

def World.setRun (w : World) (i : Nat) (r : Run) : World := { w with runs := w.runs.set i r }

/-! ## `resolve` -/

/-- Aliases for names, one after another. -/
def aliases (fold : Text → Text) : List Text → List Text → List Text
  | _, [] => []
  | taken, name :: names =>
      aliasFor fold name taken :: aliases fold (taken ++ [aliasFor fold name taken]) names

def commonMode (modes : List (List ForwardingMode)) (wanted : Option ForwardingMode) :
    Option ForwardingMode :=
  let shared := [ForwardingMode.modern, .legacy].filter fun mode =>
    modes.all fun list => list.contains mode
  match wanted with
  | some mode => if shared.contains mode then some mode else none
  | none => shared.head?

section Resolve

variable (e : Env) (w : World) (props : NetworkWizardProps)

/-- `accessible`. -/
def freeServer (id : Text) : Option Server :=
  (w.server id).filter fun s => !w.taken s.id

/-- `tryOrder`. Missing order puts the first backend first. -/
def tryOrder (backends : List Server) (count : Nat) : Option (List Ref) :=
  let known := backends.map (fun s => Ref.server s.id) ++ (List.range count).map Ref.fresh
  let refs := match props.tryOrder, backends with
    | [], [] => [Ref.fresh 0]
    | [], b :: _ => [Ref.server b.id]
    | order, _ => order
  if refs.Nodup ∧ refs.all known.contains then some refs else none

def Server.modes (s : Server) : List ForwardingMode :=
  match s.role with
  | .backend kind => forwardingModes s.gameVersion kind
  | _ => []

def NewServerOptions.modes (o : NewServerOptions) : List ForwardingMode :=
  match o.role with
  | .backend kind => forwardingModes (some o.version) kind
  | _ => []

/-- `assertNames`. Names of new servers are unique among themselves and the panel. -/
def namesFree (names : List Text) : Bool :=
  decide (names.map e.lower).Nodup &&
    names.all fun name => name != [] && w.servers.all fun s => s.name != name

/-- `newSpec`. -/
def newSpec (ref : Ref) (o : NewServerOptions) (port : Nat) (aliasName : Text)
    (tryOrder : Option Nat) : NewServerSpec :=
  ⟨ref, trim o.name, o.version, port, o.role, aliasName, tryOrder⟩

/-- The proxy, of which there is one: picked or described. -/
def resolveProxy (port : Nat) : Option ProxySpec :=
  match props.proxyServerId.filter (fun id => id != []), props.newProxy with
  | some id, none => ((freeServer w id).filter fun s => s.role.isProxy).map ProxySpec.server
  | none, some o =>
      match o.role with
      | .proxy _ => some (.create (newSpec .proxy o port [] none))
      | _ => none
  | _, _ => none

/-- `existingBackends`. -/
def existingBackends : Option (List Server) :=
  if (props.proxyServerId.filter fun id => id != []).any props.backendIds.contains then none
  else props.backendIds.eraseDups.mapM fun id => (freeServer w id).filter fun s => s.role.isBackend

/-- `newBackends`. -/
def newBackends : Option (List NewServerOptions) :=
  if (props.newBackends = [] ∧ props.backendIds = []) ∨ 10 < props.newBackends.length ∨
      ¬ props.newBackends.all fun o => o.role.isBackend then none
  else some props.newBackends

def existingSpecs (order : List Ref) (backends : List Server) (names : List Text) :
    List ExistingBackendSpec :=
  (backends.zip names).map fun (s, aliasName) =>
    ⟨s, aliasName, order.idxOf? (Ref.server s.id)⟩

def createdSpecs (order : List Ref) (ports : Nat → Nat) (fresh : List NewServerOptions)
    (names : List Text) : List NewServerSpec :=
  (fresh.zip names).mapIdx fun i (o, aliasName) =>
    newSpec (.fresh i) o (ports (i + 1)) aliasName (order.idxOf? (Ref.fresh i))

/-- The validated input of the wizard. `ports` are those of the new servers, the proxy's
    first. -/
def resolve (ports : Nat → Nat) : Option WizardSpec :=
  if trim props.name = [] then none
  else do
    let proxy ← resolveProxy w props (ports 0)
    let backends ← existingBackends w props
    let fresh ← newBackends props
    let order ← tryOrder props backends fresh.length
    let mode ← commonMode (backends.map Server.modes ++ fresh.map NewServerOptions.modes)
      props.forwardingMode
    if ¬ namesFree e w ((props.newProxy.toList ++ fresh).map fun o => trim o.name) then none
    else
      let names := aliases e.fold [] (backends.map Server.name ++ fresh.map fun o => trim o.name)
      return {
        name := trim props.name
        mode := mode
        proxy := proxy
        existing := existingSpecs order backends names
        created := createdSpecs order ports fresh (names.drop backends.length)
        proxySettings := props.proxySettings }

end Resolve

/-! ## The draft of a run -/

/-- `created.get(ref)`. -/
def Run.get (r : Run) (ref : Ref) : Option Server :=
  (r.created.find? fun c => c.1 == ref).map Prod.snd

def Server.draftServer (s : Server) : DraftServer :=
  ⟨some s.id, s.name, s.gameVersion, s.port, s.running⟩

/-- `placeholder`. -/
def NewServerSpec.placeholder (item : NewServerSpec) : DraftServer :=
  ⟨none, item.name, some item.version, item.port, false⟩

def Role.docker : Role → Bool
  | .proxy docker => docker
  | _ => false

/-- `draftProxy`, and `newProxy` for one that is created. -/
def Run.draftProxy (r : Run) : DraftProxy :=
  match r.spec.proxy with
  | .server s => { s.draftServer with docker := s.role.docker }
  | .create item =>
      match r.get item.ref with
      | some s => { s.draftServer with docker := s.role.docker }
      | none => { item.placeholder with docker := item.role.docker }

/-- `forwardingOf`. -/
def Role.forwarding : Role → BackendForwardingKind
  | .backend kind => kind
  | _ => .spigot

def draftBackend (s : Server) (aliasName : Text) (tryOrder : Option Nat) : DraftBackend :=
  { s.draftServer with
    aliasName := aliasName, tryOrder := tryOrder, forwarding := s.role.forwarding }

def Run.draftCreated (r : Run) (item : NewServerSpec) : DraftBackend :=
  match r.get item.ref with
  | some s => draftBackend s item.aliasName item.tryOrder
  | none =>
      { item.placeholder with
        aliasName := item.aliasName, tryOrder := item.tryOrder,
        forwarding := item.role.forwarding }

/-- `readSecret`. -/
def secretOf (files : Files) (proxy : DraftProxy) : Text :=
  ((proxy.serverId.bind fun id => files id FORWARDING_SECRET_FILE).map trim).getD []

/-- `draft`, from the files as it reads them. `fresh` is what `generateSecret` returns. -/
def Run.draft (r : Run) (seen : Files) (fresh : GeneratedSecret) : NetworkDraft where
  proxy := r.draftProxy
  backends := r.spec.existing.map (fun b => draftBackend b.server b.aliasName b.tryOrder) ++
    r.spec.created.map r.draftCreated
  mode := r.spec.mode
  secret := if secretOf seen r.draftProxy = [] then fresh.text else secretOf seen r.draftProxy
  settings := r.spec.proxySettings

/-- The rows of the network that is stored. -/
def memberRows (draft : NetworkDraft) : Option (List Member) :=
  draft.backends.mapM fun b => b.serverId.map fun id => ⟨id, b.aliasName, b.tryOrder⟩

/-- The keys of the tables take the network: a server is the proxy of one network and in one
    row of the members, and all servers are there. -/
def storable (w : World) (proxy : Text) (rows : List Member) : Bool :=
  (w.server proxy).isSome && w.networks.all (fun n => n.proxyServerId != proxy) &&
    insertable rows && rows.all fun m =>
      (w.server m.serverId).isSome && w.members.all fun x => x.2.serverId != m.serverId

/-! ## The steps -/

inductive Event
  | request (props : NetworkWizardProps) (ports : Nat → Nat)
  /-- The next server of the run gets its row. -/
  | makeServer (i : Nat) (id : Text)
  /-- Its install is done, with these files. -/
  | installed (i : Nat) (files : List (String × Text))
  | draft (i : Nat) (seen : Files) (fresh : GeneratedSecret)
  /-- The next Fabric backend has the mod, with these files written for it. -/
  | ensure (i : Nat) (files : List (String × Text))
  /-- The edits are planned from the files as they are read. -/
  | plan (i : Nat) (seen : Files)
  | write (i : Nat)
  | store (i : Nat)
  /-- What the run waits for fails. An install may leave files behind. -/
  | fail (i : Nat) (left : List (String × Text))
  /-- Someone else writes a file. -/
  | edit (id : Text) (path : String) (text : Text)
  | createServer (server : Server)
  | deleteServer (id : Text)
  /-- A change of the members of a network. -/
  | setMembers (network : NetworkId) (rows : List Member)
  | deleteNetwork (network : NetworkId)

/-- A run writes files of one server. -/
def World.put (w : World) (i : Nat) (id : Text) (files : List (String × Text)) : World :=
  files.foldl (fun w f => w.alter (some i) (.write id f.1 f.2)) w

/-- The run, having written these files of one server. -/
def Run.wrote (r : Run) (id : Text) (paths : List String) : Run :=
  if r.made.any fun s => s.id == id then r
  else { r with changed := paths.map (fun path => (id, path)) ++ r.changed }

/-- The servers that go when a run fails: the factory discards the one it was making, and the
    catch of `apply` those that were created. -/
def Run.discarded (r : Run) : List Server :=
  match r.phase with
  | .installing server _ _ => server :: r.created.map Prod.snd
  | _ => r.created.map Prod.snd

/-- `discardCreated`. -/
def World.discard (w : World) (own : Option Nat) (servers : List Server) : World :=
  servers.foldl (fun w s => w.delete own s.id) w

def World.failRun (w : World) (i : Nat) (r : Run) : World :=
  (w.discard (some i) r.discarded).setRun i { r with phase := .failed }

/-- The id of a server is new. -/
def World.unused (w : World) (id : Text) : Bool :=
  (w.server id).isNone && !w.gone.contains id

def NewServerSpec.server (item : NewServerSpec) (id : Text) : Server :=
  ⟨id, item.name, some item.version, item.port, false, item.role⟩

section Steps

variable (e : Env) (w : World)

def stepRun (i : Nat) (r : Run) : Event → Option World
  | .makeServer _ id =>
      match r.phase with
      | .creating (item :: todo) =>
          if w.unused id then
            some ((w.insert (item.server id)).setRun i
              { r with
                phase := .installing (item.server id) item todo
                made := r.made ++ [item.server id] })
          else none
      | _ => none
  | .installed _ files =>
      match r.phase with
      | .installing server item todo =>
          some ((w.put i server.id files).setRun i
            { r with phase := .creating todo, created := r.created ++ [(item.ref, server)] })
      | _ => none
  | .draft _ seen fresh =>
      match r.phase with
      | .creating [] =>
          let draft := r.draft seen fresh
          some (w.setRun i { r with
            phase := .fabric draft (draft.backends.filter fun b => b.forwarding == .fabric) })
      | _ => none
  | .ensure _ files =>
      match r.phase with
      | .fabric draft (b :: todo) =>
          match b.serverId.filter fun id => (w.server id).isSome with
          | some id =>
              some ((w.put i id files).setRun i
                { r.wrote id (files.map Prod.fst) with phase := .fabric draft todo })
          | none => none
      | _ => none
  | .plan _ seen =>
      match r.phase with
      | .fabric draft [] =>
          match draftEdits e.velocity e.yaml draft draft.backends (filesOf seen) with
          | some edits => some (w.setRun i { r with phase := .writing draft (writesOf edits) })
          -- an editor throws
          | none => some (w.failRun i r)
      | _ => none
  | .write _ =>
      match r.phase with
      | .writing draft ((id, edit) :: todo) =>
          some ((w.put i id [(edit.path, edit.after)]).setRun i
            { r.wrote id [edit.path] with phase := .writing draft todo })
      | _ => none
  | .store _ =>
      match r.phase with
      | .writing draft [] =>
          match draft.proxy.serverId, memberRows draft with
          | some proxy, some rows =>
              if storable w proxy rows then
                some ((w.create ⟨.ofRun i, r.spec.name, proxy, r.spec.mode⟩ rows).setRun i
                  { r with phase := .succeeded })
              else some (w.failRun i r)
          | _, _ => some (w.failRun i r)
      | _ => none
  | .fail _ left =>
      match r.phase with
      | .failed => none
      | .succeeded => none
      | .fabric _ (b :: _) =>
          match b.serverId with
          | some id => some ((w.put i id left).failRun i (r.wrote id (left.map Prod.fst)))
          | none => some (w.failRun i r)
      | _ => some (w.failRun i r)
  | _ => none

/-- The run that an event is a step of. -/
def Event.run : Event → Option Nat
  | .makeServer i _ => some i
  | .installed i _ => some i
  | .draft i _ _ => some i
  | .ensure i _ => some i
  | .plan i _ => some i
  | .write i => some i
  | .store i => some i
  | .fail i _ => some i
  | _ => none

/-- The rows of a network are replaced. The servers were checked to be backends. -/
def replaceable (network : NetworkId) (rows : List Member) : Bool :=
  w.networks.any (fun n => n.id == network) && insertable rows && rows.all fun m =>
    (w.server m.serverId).any (fun s => s.role.isBackend) &&
      w.members.all fun x => x.1 == network || x.2.serverId != m.serverId

def stepOther : Event → Option World
  | .request props ports =>
      (resolve e w props ports).map fun spec =>
        { w with runs := w.runs ++
            [{ spec := spec, phase := .creating spec.queue, without := w.files }] }
  | .edit id path text => some (w.alter none (.write id path text))
  | .createServer server =>
      if w.unused server.id then some (w.insert server) else none
  | .deleteServer id => some (w.delete none id)
  | .setMembers network rows =>
      if replaceable w network rows then
        some { w with
          members := (w.members.filter fun x => x.1 != network) ++ rows.map fun m => (network, m) }
      else none
  | .deleteNetwork network =>
      some { w with
        networks := w.networks.filter fun n => n.id != network
        members := w.members.filter fun x => x.1 != network }
  | _ => none

def step (ev : Event) : Option World :=
  match ev.run with
  | none => stepOther e w ev
  | some i =>
      match w.runs[i]? with
      | none => none
      | some r => stepRun e w i r ev

end Steps

/-! ## What a run leaves -/

/-- The servers that a run names, and those that it made. -/
def Run.named (r : Run) : List Server := r.spec.existingServers ++ r.made

/-- The server belongs to the network. -/
def Belongs (w : World) (id : Text) (network : NetworkId) : Prop :=
  (∃ n ∈ w.networks, n.id = network ∧ n.proxyServerId = id) ∨
    ∃ m ∈ w.members, m.1 = network ∧ m.2.serverId = id

/-- There is no row of the network of the run. -/
def NoRows (w : World) (i : Nat) : Prop :=
  (∀ n ∈ w.networks, n.id ≠ .ofRun i) ∧ ∀ m ∈ w.members, m.1 ≠ .ofRun i

/-- Nothing of the run is left: no network, no server that it made, and the files of the
    servers it was given are those they have without it. -/
structure Undone (w : World) (i : Nat) (r : Run) : Prop where
  rows : NoRows w i
  servers : ∀ s ∈ r.made, ∀ t ∈ w.servers, t.id ≠ s.id
  files : ∀ s ∈ r.spec.existingServers, w.files s.id = r.without s.id

/-- Every server of the run is in its network and in no other. -/
def Joined (w : World) (i : Nat) (r : Run) : Prop :=
  ∀ s ∈ r.named, ∀ network, Belongs w s.id network ↔ network = .ofRun i

/-- The tables as the panel keeps them: Velocity servers are proxies, other ones are members. -/
structure Tables (w : World) : Prop where
  ids : (w.servers.map Server.id).Nodup
  gone : ∀ s ∈ w.servers, s.id ∉ w.gone
  proxies : ∀ n ∈ w.networks, ∃ s ∈ w.servers, s.id = n.proxyServerId ∧ s.role.isProxy = true
  members : ∀ m ∈ w.members, ∃ s ∈ w.servers, s.id = m.2.serverId ∧ s.role.isBackend = true

def machine (e : Env) : Machine World Event where
  init w := Tables w ∧ w.runs = [] ∧ ∀ i, NoRows w i
  step w ev := step e w ev

/-! ## The condition -/

/-- The run after an install has left these files. -/
def Run.left (r : Run) (files : List (String × Text)) : Run :=
  match r.phase with
  | .fabric _ (b :: _) =>
      match b.serverId with
      | some id => r.wrote id (files.map Prod.fst)
      | none => r
  | _ => r

/-- The step of the run throws. -/
def throws (e : Env) (w : World) (r : Run) : Event → Bool
  | .fail _ _ => true
  | .plan _ seen =>
      match r.phase with
      | .fabric draft _ =>
          (draftEdits e.velocity e.yaml draft draft.backends (filesOf seen)).isNone
      | _ => false
  | .store _ =>
      match r.phase with
      | .writing draft _ =>
          match draft.proxy.serverId, memberRows draft with
          | some proxy, some rows => !storable w proxy rows
          | _, _ => true
      | _ => false
  | _ => false

/-- At the end of this step, the run has not changed a file of a server that it did not make. -/
def Run.early (r : Run) : Event → Bool
  | .fail _ left => (r.left left).changed.isEmpty
  | _ => r.changed.isEmpty

/-- A step throws only where its run is early. -/
def failsEarly (e : Env) (w : World) (ev : Event) : Bool :=
  match ev.run.bind fun i => w.runs[i]? with
  | none => true
  | some r => !throws e w r ev || r.early ev

/-! ## Created servers -/

/-- The servers that are created so far, for the first parts of the queue. -/
def Matches (created : List (Ref × Server)) (queue : List NewServerSpec) : Prop :=
  List.Forall₂ (fun c item => c.1 = item.ref ∧ c.2.role = item.role) created queue

section Created

variable {created : List (Ref × Server)} {queue : List NewServerSpec}

theorem Matches.find (h : Matches created queue) (h_refs : (queue.map NewServerSpec.ref).Nodup) :
    (∀ item ∈ queue, ∃ c ∈ created, created.find? (fun c => c.1 == item.ref) = some c ∧
      c.2.role = item.role) ∧
    ∀ c ∈ created, ∃ item ∈ queue, created.find? (fun c => c.1 == item.ref) = some c := by
  induction h with
  | nil => exact ⟨List.forall_mem_nil _, List.forall_mem_nil _⟩
  | @cons c item created queue h_head _ ih =>
    obtain ⟨h_item, h_queue⟩ := List.nodup_cons.mp h_refs
    obtain ⟨ih_item, ih_created⟩ := ih h_queue
    have h_found : (c :: created).find? (fun c => c.1 == item.ref) = some c := by
      rw [List.find?_cons_of_pos (by simp [h_head.1])]
    have h_skip : ∀ x ∈ queue, (c :: created).find? (fun c => c.1 == x.ref) =
        created.find? fun c => c.1 == x.ref := by
      intro x h_x
      have h_ne : item.ref ≠ x.ref := fun h_eq => h_item (h_eq ▸ List.mem_map_of_mem h_x)
      rw [List.find?_cons_of_neg (by simpa [h_head.1] using h_ne)]
    refine ⟨fun x h_x => ?_, fun y h_y => ?_⟩
    · obtain rfl | h_x := List.mem_cons.mp h_x
      · exact ⟨c, List.mem_cons_self, h_found, h_head.2⟩
      · obtain ⟨y, h_y, h_find, h_role⟩ := ih_item x h_x
        exact ⟨y, List.mem_cons_of_mem _ h_y, (h_skip x h_x).trans h_find, h_role⟩
    · obtain rfl | h_y := List.mem_cons.mp h_y
      · exact ⟨item, List.mem_cons_self, h_found⟩
      · obtain ⟨x, h_x, h_find⟩ := ih_created y h_y
        exact ⟨x, List.mem_cons_of_mem _ h_x, (h_skip x h_x).trans h_find⟩

theorem Matches.concat (h : Matches created queue) {item : NewServerSpec} {s : Server}
    (h_role : s.role = item.role) :
    Matches (created ++ [(item.ref, s)]) (queue ++ [item]) :=
  List.rel_append h (.cons ⟨rfl, h_role⟩ .nil)

end Created

/-! ## The invariant -/

/-- What `resolve` promises. -/
structure WizardSpec.Sound (spec : WizardSpec) : Prop where
  proxy : match spec.proxy with
    | .server s => s.role.isProxy = true
    | .create item => item.role.isProxy = true
  existing : ∀ b ∈ spec.existing, b.server.role.isBackend = true
  created : ∀ item ∈ spec.created, item.role.isBackend = true
  refs : (spec.queue.map NewServerSpec.ref).Nodup

/-- The draft is one of these servers. -/
structure Covers (named : List Server) (draft : NetworkDraft) : Prop where
  proxy : ∃ p ∈ named, draft.proxy.serverId = some p.id ∧ p.role.isProxy = true
  backends : ∀ b ∈ draft.backends, ∃ s ∈ named, b.serverId = some s.id ∧ s.role.isBackend = true
  named : ∀ s ∈ named, draft.proxy.serverId = some s.id ∨
    ∃ b ∈ draft.backends, b.serverId = some s.id

/-- How far a run has come. -/
def Run.Progress (r : Run) : Prop :=
  match r.phase with
  | .creating todo =>
      ∃ done, r.spec.queue = done ++ todo ∧ Matches r.created done ∧
        r.made = r.created.map Prod.snd
  | .installing s item todo =>
      ∃ done, r.spec.queue = done ++ item :: todo ∧ Matches r.created done ∧
        r.made = r.created.map Prod.snd ++ [s] ∧ s.role = item.role
  | .fabric draft _ => Covers r.named draft ∧ r.made = r.created.map Prod.snd
  | .writing draft _ => Covers r.named draft ∧ r.made = r.created.map Prod.snd
  | .failed => True
  | .succeeded => True

/-- A server that has a row, or had one. -/
def Known (w : World) (s : Server) : Prop := s ∈ w.servers ∨ s.id ∈ w.gone

structure RunInv (w : World) (i : Nat) (r : Run) : Prop where
  spec : r.spec.Sound
  known : ∀ s ∈ r.named, Known w s
  fresh : ∀ s ∈ r.made, ∀ t ∈ r.spec.existingServers, t.id ≠ s.id
  progress : r.Progress
  rows : r.phase ≠ .succeeded → NoRows w i
  same : ∀ id path, (∀ s ∈ r.made, s.id ≠ id) → (id, path) ∉ r.changed →
    w.files id path = r.without id path
  failed : r.phase = .failed → r.changed = [] ∧ ∀ s ∈ r.made, s.id ∈ w.gone

structure Inv (w : World) : Prop where
  tables : Tables w
  runs : ∀ i r, w.runs[i]? = some r → RunInv w i r
  /-- Runs that are not there yet. -/
  rows : ∀ i, w.runs[i]? = none → NoRows w i

/-! ## What the steps keep of the other runs -/

/-- `w'` is `w` after steps that are none of a run but `own`. -/
structure Moves (own : Option Nat) (w w' : World) : Prop where
  known : ∀ s, Known w s → Known w' s
  gone : ∀ id ∈ w.gone, id ∈ w'.gone
  rows : ∀ j, own ≠ some j → NoRows w j → NoRows w' j
  length : w'.runs.length = w.runs.length
  others : ∀ j r', own ≠ some j → w'.runs[j]? = some r' →
    ∃ r without, w.runs[j]? = some r ∧ r' = { r with without := without } ∧
      ∀ id path, w.files id path = r.without id path → w'.files id path = without id path

section Moves

variable {own : Option Nat} {w w' w'' : World} {i : Nat} {r : Run}

theorem Moves.refl (own : Option Nat) (w : World) : Moves own w w where
  known _ h := h
  gone _ h := h
  rows _ _ h := h
  length := rfl
  others _ r _ h_r := ⟨r, r.without, h_r, rfl, fun _ _ h => h⟩

theorem Moves.trans (h : Moves own w w') (h' : Moves own w' w'') : Moves own w w'' where
  known s h_s := h'.known s (h.known s h_s)
  gone id h_id := h'.gone id (h.gone id h_id)
  rows j h_j h_rows := h'.rows j h_j (h.rows j h_j h_rows)
  length := h'.length.trans h.length
  others j r'' h_j h_r'' := by
    obtain ⟨r', without', h_r', rfl, h_files'⟩ := h'.others j r'' h_j h_r''
    obtain ⟨r, without, h_r, rfl, h_files⟩ := h.others j r' h_j h_r'
    exact ⟨r, without', h_r, rfl, fun id path h_eq => h_files' id path (h_files id path h_eq)⟩

/-- A file operation looks at one file at a time. -/
theorem FileOp.apply_congr {f g : Files} {id : Text} {path : String} (op : FileOp)
    (h : f id path = g id path) : op.apply f id path = op.apply g id path := by
  cases op with
  | write i p text => simp only [FileOp.apply, h]
  | removeFolder i => simp only [FileOp.apply, h]

theorem moves_alter (own : Option Nat) (w : World) (op : FileOp) :
    Moves own w (w.alter own op) where
  known _ h := h
  gone _ h := h
  rows _ _ h := h
  length := by simp [World.alter]
  others j r' h_j h_r' := by
    rw [World.alter, List.getElem?_mapIdx, Option.map_eq_some_iff] at h_r'
    obtain ⟨r, h_r, rfl⟩ := h_r'
    rw [if_neg h_j]
    exact ⟨r, _, h_r, rfl, fun id path h => op.apply_congr h⟩

theorem moves_delete (own : Option Nat) (w : World) (id : Text) :
    Moves own w (w.delete own id) := by
  have h_alter := moves_alter own w (.removeFolder id)
  refine { known := fun s h_s => ?_, gone := fun x h_x => List.mem_cons_of_mem _ h_x,
           rows := fun j _ h_rows => ⟨fun n h_n => ?_, fun m h_m => ?_⟩,
           length := h_alter.length, others := h_alter.others }
  · by_cases h_id : s.id = id
    · exact .inr (h_id ▸ List.mem_cons_self)
    · refine h_s.imp (fun h => List.mem_filter.mpr ⟨h, ?_⟩) (List.mem_cons_of_mem _)
      exact bne_iff_ne.mpr h_id
  · exact h_rows.1 n (List.mem_filter.mp h_n).1
  · exact h_rows.2 m (List.mem_filter.mp h_m).1

theorem moves_setRun (w : World) (i : Nat) (r : Run) : Moves (some i) w (w.setRun i r) where
  known _ h := h
  gone _ h := h
  rows _ _ h := h
  length := by simp [World.setRun]
  others j r' h_j h_r' := by
    have h_ne : i ≠ j := fun h => h_j (congrArg some h)
    rw [World.setRun, List.getElem?_set_ne h_ne] at h_r'
    exact ⟨r', r'.without, h_r', rfl, fun _ _ h => h⟩

theorem moves_insert (own : Option Nat) (w : World) (s : Server) : Moves own w (w.insert s) where
  known _ h := h.imp_left (List.mem_append_left _)
  gone _ h := h
  rows _ _ h := h
  length := rfl
  others _ r _ h_r := ⟨r, r.without, h_r, rfl, fun _ _ h => h⟩

theorem moves_create (w : World) (i : Nat) (network : NetworkRecord) (rows : List Member)
    (h_id : network.id = .ofRun i) : Moves (some i) w (w.create network rows) where
  known _ h := h
  gone _ h := h
  rows j h_j h_rows := by
    have h_ne : network.id ≠ .ofRun j := by
      intro h_eq
      rw [h_id] at h_eq
      cases h_eq
      exact h_j rfl
    refine ⟨fun n h_n => ?_, fun m h_m => ?_⟩
    · obtain h_n | h_n := List.mem_append.mp h_n
      · exact h_rows.1 n h_n
      · rw [List.mem_singleton.mp h_n]
        exact h_ne
    · obtain h_m | h_m := List.mem_append.mp h_m
      · exact h_rows.2 m h_m
      · obtain ⟨x, -, rfl⟩ := List.mem_map.mp h_m
        exact h_ne
  length := rfl
  others _ r _ h_r := ⟨r, r.without, h_r, rfl, fun _ _ h => h⟩

theorem moves_put (w : World) (i : Nat) (id : Text) (files : List (String × Text)) :
    Moves (some i) w (w.put i id files) := by
  induction files generalizing w with
  | nil => exact .refl _ w
  | cons f files ih => exact (moves_alter _ w _).trans (ih _)

theorem moves_discard (own : Option Nat) (w : World) (servers : List Server) :
    Moves own w (w.discard own servers) := by
  induction servers generalizing w with
  | nil => exact .refl _ w
  | cons s servers ih => exact (moves_delete own w s.id).trans (ih _)

/-- What a step is none of the run of keeps the invariant of the run. -/
theorem RunInv.moves {j : Nat} {r' : Run} (h_moves : Moves own w w') (h_j : own ≠ some j)
    (h_r' : w'.runs[j]? = some r') (h : ∀ r, w.runs[j]? = some r → RunInv w j r) :
    RunInv w' j r' := by
  obtain ⟨r, without, h_r, rfl, h_files⟩ := h_moves.others j r' h_j h_r'
  have h_run := h r h_r
  exact { spec := h_run.spec
          known := fun s h_s => h_moves.known s (h_run.known s h_s)
          fresh := h_run.fresh
          progress := h_run.progress
          rows := fun h_phase => h_moves.rows j h_j (h_run.rows h_phase)
          same := fun id path h_made h_changed => h_files id path (h_run.same id path h_made h_changed)
          failed := fun h_phase => ⟨(h_run.failed h_phase).1, fun s h_s =>
            h_moves.gone s.id ((h_run.failed h_phase).2 s h_s)⟩ }

end Moves

/-! ## The tables -/

section Tables

variable {w : World} {id : Text}

theorem exists_of_server (h : (w.server id).isSome = true) : ∃ s ∈ w.servers, s.id = id := by
  obtain ⟨s, h_s⟩ := Option.isSome_iff_exists.mp h
  have h_id := List.find?_some h_s
  exact ⟨s, List.mem_of_find?_eq_some h_s, eq_of_beq h_id⟩

theorem World.unused_iff : w.unused id = true ↔ (∀ s ∈ w.servers, s.id ≠ id) ∧ id ∉ w.gone := by
  simp only [World.unused, World.server, Bool.and_eq_true, Option.isNone_iff_eq_none,
    List.find?_eq_none, Bool.not_eq_true', List.contains_eq_mem, decide_eq_false_iff_not, beq_iff_eq]

/-- A row of a known server is the server as it is known. -/
theorem Tables.eq_of_known (h : Tables w) {s t : Server} (h_s : Known w s) (h_t : t ∈ w.servers)
    (h_id : t.id = s.id) : t = s := by
  obtain h_s | h_gone := h_s
  · exact List.inj_on_of_nodup_map h.ids h_t h_s h_id
  · exact absurd (h_id ▸ h_gone) (h.gone t h_t)

theorem Tables.alter (h : Tables w) (own : Option Nat) (op : FileOp) : Tables (w.alter own op) :=
  ⟨h.ids, h.gone, h.proxies, h.members⟩

theorem Tables.setRun (h : Tables w) (i : Nat) (r : Run) : Tables (w.setRun i r) :=
  ⟨h.ids, h.gone, h.proxies, h.members⟩

theorem Tables.delete (h : Tables w) (own : Option Nat) (id : Text) :
    Tables (w.delete own id) where
  ids := h.ids.sublist (List.filter_sublist.map _)
  gone s h_s h_gone := by
    obtain ⟨h_s, h_ne⟩ := List.mem_filter.mp h_s
    obtain h_eq | h_gone := List.mem_cons.mp h_gone
    · exact bne_iff_ne.mp h_ne h_eq
    · exact h.gone s h_s h_gone
  proxies n h_n := by
    obtain ⟨h_n, h_ne⟩ := List.mem_filter.mp h_n
    obtain ⟨s, h_s, h_id, h_role⟩ := h.proxies n h_n
    exact ⟨s, List.mem_filter.mpr ⟨h_s, h_id.symm ▸ h_ne⟩, h_id, h_role⟩
  members m h_m := by
    obtain ⟨h_m, h_keep⟩ := List.mem_filter.mp h_m
    have h_ne := (Bool.and_eq_true_iff.mp h_keep).1
    obtain ⟨s, h_s, h_id, h_role⟩ := h.members m h_m
    exact ⟨s, List.mem_filter.mpr ⟨h_s, h_id.symm ▸ h_ne⟩, h_id, h_role⟩

theorem Tables.insert (h : Tables w) {s : Server} (h_unused : w.unused s.id = true) :
    Tables (w.insert s) := by
  obtain ⟨h_new, h_gone⟩ := World.unused_iff.mp h_unused
  refine ⟨?_, fun t h_t => ?_, fun n h_n => ?_, fun m h_m => ?_⟩
  · rw [World.insert, List.map_append, List.nodup_append]
    refine ⟨h.ids, List.nodup_singleton _, fun x h_x y h_y h_eq => ?_⟩
    obtain ⟨t, h_t, rfl⟩ := List.mem_map.mp h_x
    exact h_new t h_t (h_eq.trans (List.mem_singleton.mp h_y))
  · obtain h_t | h_t := List.mem_append.mp h_t
    · exact h.gone t h_t
    · rw [List.mem_singleton.mp h_t]
      exact h_gone
  · obtain ⟨t, h_t, h_proxy⟩ := h.proxies n h_n
    exact ⟨t, List.mem_append_left _ h_t, h_proxy⟩
  · obtain ⟨t, h_t, h_member⟩ := h.members m h_m
    exact ⟨t, List.mem_append_left _ h_t, h_member⟩

theorem Tables.create (h : Tables w) {network : NetworkRecord} {rows : List Member}
    (h_proxy : ∃ s ∈ w.servers, s.id = network.proxyServerId ∧ s.role.isProxy = true)
    (h_rows : ∀ m ∈ rows, ∃ s ∈ w.servers, s.id = m.serverId ∧ s.role.isBackend = true) :
    Tables (w.create network rows) := by
  refine ⟨h.ids, h.gone, fun n h_n => ?_, fun m h_m => ?_⟩
  · obtain h_n | h_n := List.mem_append.mp h_n
    · exact h.proxies n h_n
    · rw [List.mem_singleton.mp h_n]
      exact h_proxy
  · obtain h_m | h_m := List.mem_append.mp h_m
    · exact h.members m h_m
    · obtain ⟨x, h_x, rfl⟩ := List.mem_map.mp h_m
      exact h_rows x h_x

theorem Tables.setMembers (h : Tables w) {network : NetworkId} {rows : List Member}
    (h_rows : replaceable w network rows = true) :
    Tables { w with members :=
      (w.members.filter fun x => x.1 != network) ++ rows.map fun m => (network, m) } := by
  refine ⟨h.ids, h.gone, h.proxies, fun m h_m => ?_⟩
  obtain h_m | h_m := List.mem_append.mp h_m
  · exact h.members m (List.mem_filter.mp h_m).1
  · obtain ⟨x, h_x, rfl⟩ := List.mem_map.mp h_m
    have h_row := List.all_eq_true.mp (Bool.and_eq_true_iff.mp h_rows).2 x h_x
    obtain ⟨s, h_s, h_role⟩ := (Option.any_eq_true _ _).mp (Bool.and_eq_true_iff.mp h_row).1
    have h_id := List.find?_some h_s
    exact ⟨s, List.mem_of_find?_eq_some h_s, eq_of_beq h_id, h_role⟩

theorem Tables.deleteNetwork (h : Tables w) (network : NetworkId) :
    Tables { w with
      networks := w.networks.filter fun n => n.id != network
      members := w.members.filter fun x => x.1 != network } :=
  ⟨h.ids, h.gone, fun n h_n => h.proxies n (List.mem_filter.mp h_n).1,
    fun m h_m => h.members m (List.mem_filter.mp h_m).1⟩

theorem NoRows.delete {i : Nat} (h : NoRows w i) (own : Option Nat) (id : Text) :
    NoRows (w.delete own id) i :=
  ⟨fun n h_n => h.1 n (List.mem_filter.mp h_n).1, fun m h_m => h.2 m (List.mem_filter.mp h_m).1⟩

end Tables

/-! ## The steps of a run -/

section Own

variable {e : Env} {w w' : World} {i : Nat} {r r' : Run}

theorem Inv.own (h : Inv w) (h_r : w.runs[i]? = some r) (h_moves : Moves (some i) w w')
    (h_tables : Tables w') (h_run : RunInv w' i r') : Inv (w'.setRun i r') := by
  have h_lt : i < w'.runs.length := h_moves.length ▸ (List.getElem?_eq_some_iff.mp h_r).1
  have h_at : (w'.setRun i r').runs[i]? = some r' := List.getElem?_set_self h_lt
  have h_all := h_moves.trans (moves_setRun w' i r')
  refine ⟨h_tables.setRun i r', fun j s h_s => ?_, fun j h_j => ?_⟩
  · by_cases h_ij : i = j
    · subst h_ij
      rw [h_at] at h_s
      cases h_s
      exact { h_run with }
    · exact RunInv.moves h_all (fun h_eq => h_ij (Option.some.inj h_eq)) h_s (h.runs j)
  · have h_ij : i ≠ j := by
      rintro rfl
      rw [h_at] at h_j
      cases h_j
    refine h_all.rows j (fun h_eq => h_ij (Option.some.inj h_eq)) (h.rows j ?_)
    rw [List.getElem?_eq_none_iff] at h_j ⊢
    exact h_all.length ▸ h_j

/-- The files of one server are written; the tables are left alone. -/
theorem put_spec (w : World) (i : Nat) (id : Text) (files : List (String × Text)) :
    (w.put i id files).servers = w.servers ∧ (w.put i id files).gone = w.gone ∧
      (w.put i id files).networks = w.networks ∧ (w.put i id files).members = w.members ∧
      ∀ id' path, (id' = id → path ∉ files.map Prod.fst) →
        (w.put i id files).files id' path = w.files id' path := by
  induction files generalizing w with
  | nil => exact ⟨rfl, rfl, rfl, rfl, fun _ _ _ => rfl⟩
  | cons f files ih =>
    obtain ⟨h_servers, h_gone, h_networks, h_members, h_files⟩ := ih (w.alter (some i) (.write id f.1 f.2))
    refine ⟨h_servers, h_gone, h_networks, h_members, fun id' path h_path => ?_⟩
    rw [World.put, List.foldl_cons]
    refine (h_files id' path fun h_id => List.not_mem_of_not_mem_cons (h_path h_id)).trans ?_
    have h_not : ¬ (id' = id ∧ path = f.1) := by
      rintro ⟨h_id, rfl⟩
      exact h_path h_id List.mem_cons_self
    exact if_neg h_not

theorem Tables.put (h : Tables w) (i : Nat) (id : Text) (files : List (String × Text)) :
    Tables (w.put i id files) := by
  obtain ⟨h_servers, h_gone, h_networks, h_members, -⟩ := put_spec w i id files
  refine ⟨h_servers ▸ h.ids, fun s h_s => ?_, fun n h_n => ?_, fun m h_m => ?_⟩
  · rw [h_gone]
    exact h.gone s (h_servers ▸ h_s)
  · rw [h_servers]
    exact h.proxies n (h_networks ▸ h_n)
  · rw [h_servers]
    exact h.members m (h_members ▸ h_m)

/-- A run that has written files of one server. -/
theorem RunInv.put (h : RunInv w i r) (id : Text) (files : List (String × Text))
    (h_phase : r.phase ≠ .failed) :
    RunInv (w.put i id files) i (r.wrote id (files.map Prod.fst)) := by
  obtain ⟨h_servers, h_gone, h_networks, h_members, h_files⟩ := put_spec w i id files
  have h_known : ∀ s ∈ r.named, Known (w.put i id files) s := by
    intro s h_s
    rw [Known, h_servers, h_gone]
    exact h.known s h_s
  have h_rows : r.phase ≠ .succeeded → NoRows (w.put i id files) i := by
    intro h_phase
    rw [NoRows, h_networks, h_members]
    exact h.rows h_phase
  by_cases h_made : r.made.any (fun s => s.id == id) = true
  · rw [Run.wrote, if_pos h_made]
    refine { h with known := h_known, rows := h_rows, same := fun id' path h_id' h_path => ?_,
                    failed := fun h => absurd h h_phase }
    obtain ⟨s, h_s, h_id⟩ := List.any_eq_true.mp h_made
    rw [h_files id' path fun h_eq => absurd ((eq_of_beq h_id).trans h_eq.symm) (h_id' s h_s)]
    exact h.same id' path h_id' h_path
  · rw [Run.wrote, if_neg h_made]
    refine { spec := h.spec, known := h_known, fresh := h.fresh, progress := h.progress,
             rows := h_rows, same := fun id' path h_id' h_path => ?_,
             failed := fun h => absurd h h_phase }
    obtain ⟨h_new, h_old⟩ := not_or.mp fun h_or => h_path (List.mem_append.mpr h_or)
    rw [h_files id' path fun h_eq h_mem => h_new (List.mem_map.mpr ?_)]
    · exact h.same id' path h_id' h_old
    · exact ⟨path, h_mem, by rw [h_eq]⟩

theorem discard_spec (own : Option Nat) (servers : List Server) (w : World) :
    (Tables w → Tables (w.discard own servers)) ∧ (NoRows w i → NoRows (w.discard own servers) i) ∧
      (∀ id ∈ w.gone, id ∈ (w.discard own servers).gone) ∧
      (∀ s ∈ servers, s.id ∈ (w.discard own servers).gone) ∧
      ∀ id path, (∀ s ∈ servers, s.id ≠ id) →
        (w.discard own servers).files id path = w.files id path := by
  induction servers generalizing w with
  | nil => exact ⟨fun h => h, fun h => h, fun _ h => h, List.forall_mem_nil _, fun _ _ _ => rfl⟩
  | cons s servers ih =>
    obtain ⟨h_tables, h_rows, h_gone, h_all, h_files⟩ := ih (w.delete own s.id)
    refine ⟨fun h => h_tables (h.delete own s.id), fun h => h_rows (h.delete own s.id),
      fun id h_id => h_gone id (List.mem_cons_of_mem _ h_id), fun t h_t => ?_, fun id path h_id => ?_⟩
    · obtain rfl | h_t := List.mem_cons.mp h_t
      · exact h_gone t.id List.mem_cons_self
      · exact h_all t h_t
    · refine (h_files id path fun t h_t => h_id t (List.mem_cons_of_mem _ h_t)).trans ?_
      have h_ne : id ≠ s.id := (h_id s List.mem_cons_self).symm
      exact if_neg h_ne

/-- All servers that an unfinished run has made go when it fails, and no others. -/
theorem Run.Progress.mem_discarded (h : r.Progress) (h_open : r.phase ≠ .succeeded)
    (h_run : r.phase ≠ .failed) (s : Server) : s ∈ r.discarded ↔ s ∈ r.made := by
  rw [Run.Progress] at h
  rw [Run.discarded]
  cases h_phase : r.phase with
  | creating todo =>
    rw [h_phase] at h
    obtain ⟨_, -, -, h_made⟩ := h
    rw [h_made]
  | installing server item todo =>
    rw [h_phase] at h
    obtain ⟨_, -, -, h_made, -⟩ := h
    rw [h_made, List.mem_append, List.mem_singleton, List.mem_cons, or_comm]
  | fabric draft todo =>
    rw [h_phase] at h
    rw [h.2]
  | writing draft todo =>
    rw [h_phase] at h
    rw [h.2]
  | failed => exact absurd h_phase h_run
  | succeeded => exact absurd h_phase h_open

/-- A run that throws before it has changed a file of a server it did not make is undone. -/
theorem RunInv.failRun (h : RunInv w i r) (h_open : r.phase ≠ .succeeded)
    (h_run : r.phase ≠ .failed) (h_early : r.changed = []) :
    RunInv (w.discard (some i) r.discarded) i { r with phase := .failed } := by
  obtain ⟨-, h_rows, h_gone, h_all, h_files⟩ := discard_spec (i := i) (some i) r.discarded w
  have h_made := h.progress.mem_discarded h_open h_run
  have h_moves := moves_discard (some i) w r.discarded
  refine { spec := h.spec, known := fun s h_s => h_moves.known s (h.known s h_s), fresh := h.fresh,
           progress := trivial, rows := fun _ => h_rows (h.rows h_open),
           same := fun id path h_id h_path => ?_,
           failed := fun _ => ⟨h_early, fun s h_s => h_all s ((h_made s).mpr h_s)⟩ }
  rw [h_files id path fun s h_s => h_id s ((h_made s).mp h_s)]
  exact h.same id path h_id h_path

theorem RunInv.makeServer (h : RunInv w i r) (h_tables : Tables w) {item : NewServerSpec}
    {todo : List NewServerSpec} {id : Text} (h_phase : r.phase = .creating (item :: todo))
    (h_unused : w.unused id = true) :
    RunInv (w.insert (item.server id)) i
      { r with
        phase := .installing (item.server id) item todo
        made := r.made ++ [item.server id] } := by
  obtain ⟨h_new, h_gone⟩ := World.unused_iff.mp h_unused
  have h_progress := h.progress
  rw [Run.Progress, h_phase] at h_progress
  obtain ⟨done, h_queue, h_done, h_made⟩ := h_progress
  have h_open : r.phase ≠ .succeeded := by
    rw [h_phase]
    exact Phase.noConfusion
  refine { spec := h.spec, known := fun s h_s => ?_, fresh := fun s h_s t h_t => ?_,
           progress := ⟨done, h_queue, h_done, by rw [h_made], rfl⟩,
           rows := fun _ => h.rows h_open, same := fun id' path h_id' h_path => ?_,
           failed := fun h => Phase.noConfusion h }
  · rw [Run.named, ← List.append_assoc] at h_s
    obtain h_s | h_s := List.mem_append.mp h_s
    · exact (h.known s h_s).imp_left (List.mem_append_left _)
    · exact .inl (List.mem_append_right _ h_s)
  · obtain h_s | h_s := List.mem_append.mp h_s
    · exact h.fresh s h_s t h_t
    · rw [List.mem_singleton.mp h_s]
      obtain h_row | h_row := h.known t (List.mem_append_left _ h_t)
      · exact h_new t h_row
      · intro h_eq
        have h_id : t.id = id := h_eq
        exact h_gone (h_id ▸ h_row)
  · exact h.same id' path (fun s h_s => h_id' s (List.mem_append_left _ h_s)) h_path

theorem RunInv.installed (h : RunInv w i r) {server : Server} {item : NewServerSpec}
    {todo : List NewServerSpec} (h_phase : r.phase = .installing server item todo)
    (files : List (String × Text)) :
    RunInv (w.put i server.id files) i
      { r with phase := .creating todo, created := r.created ++ [(item.ref, server)] } := by
  have h_progress := h.progress
  rw [Run.Progress, h_phase] at h_progress
  obtain ⟨done, h_queue, h_done, h_made, h_role⟩ := h_progress
  have h_put := h.put server.id files (by rw [h_phase]; exact Phase.noConfusion)
  have h_mine : r.wrote server.id (files.map Prod.fst) = r := by
    rw [Run.wrote]
    refine if_pos (List.any_eq_true.mpr ⟨server, ?_, beq_self_eq_true server.id⟩)
    rw [h_made]
    exact List.mem_append_right _ (List.mem_singleton_self _)
  rw [h_mine] at h_put
  refine { h_put with
    progress := ⟨done ++ [item], ?_, h_done.concat h_role, ?_⟩
    rows := fun _ => h_put.rows (by rw [h_phase]; exact Phase.noConfusion)
    failed := fun h => Phase.noConfusion h }
  · rw [h_queue, List.append_assoc]
    rfl
  · rw [h_made, List.map_append]
    rfl

theorem Run.draftCreated_serverId {item : NewServerSpec} {c : Ref × Server}
    (h : r.created.find? (fun c => c.1 == item.ref) = some c) :
    (r.draftCreated item).serverId = some c.2.id := by
  rw [Run.draftCreated, Run.get, h]
  rfl

/-- The draft of a run all of whose servers are created. -/
theorem Run.covers_draft (h_spec : r.spec.Sound) (h_done : Matches r.created r.spec.queue)
    (h_made : r.made = r.created.map Prod.snd) (seen : Files) (fresh : GeneratedSecret) :
    Covers r.named (r.draft seen fresh) := by
  obtain ⟨h_item, h_created⟩ := h_done.find h_spec.refs
  have h_named : ∀ c ∈ r.created, c.2 ∈ r.named := by
    intro c h_c
    rw [Run.named, h_made]
    exact List.mem_append_right _ (List.mem_map_of_mem h_c)
  have h_queue : ∀ item ∈ r.spec.created, item ∈ r.spec.queue := by
    intro item h_mem
    rw [WizardSpec.queue]
    cases r.spec.proxy with
    | server _ => exact h_mem
    | create _ => exact List.mem_cons_of_mem _ h_mem
  have h_existing : ∀ b ∈ r.spec.existing, b.server ∈ r.spec.existingServers := by
    intro b h_b
    have h_mem : b.server ∈ r.spec.existing.map ExistingBackendSpec.server := List.mem_map_of_mem h_b
    rw [WizardSpec.existingServers]
    cases r.spec.proxy with
    | server _ => exact List.mem_cons_of_mem _ h_mem
    | create _ => exact h_mem
  have h_proxy : ∃ p ∈ r.named, r.draftProxy.serverId = some p.id ∧ p.role.isProxy = true := by
    have h_role := h_spec.proxy
    rw [Run.draftProxy]
    cases h : r.spec.proxy with
    | server s =>
      rw [h] at h_role
      refine ⟨s, List.mem_append_left _ ?_, rfl, h_role⟩
      rw [WizardSpec.existingServers, h]
      exact List.mem_cons_self
    | create item =>
      rw [h] at h_role
      obtain ⟨c, h_c, h_find, h_same⟩ := h_item item (by
        rw [WizardSpec.queue, h]
        exact List.mem_cons_self)
      refine ⟨c.2, h_named c h_c, ?_, h_same ▸ h_role⟩
      simp only [Run.get, h_find]
      rfl
  refine { proxy := h_proxy, backends := fun b h_b => ?_, named := fun s h_s => ?_ }
  · obtain h_b | h_b := List.mem_append.mp h_b
    · obtain ⟨x, h_x, rfl⟩ := List.mem_map.mp h_b
      exact ⟨x.server, List.mem_append_left _ (h_existing x h_x), rfl, h_spec.existing x h_x⟩
    · obtain ⟨item, h_mem, rfl⟩ := List.mem_map.mp h_b
      obtain ⟨c, h_c, h_find, h_same⟩ := h_item item (h_queue item h_mem)
      exact ⟨c.2, h_named c h_c, r.draftCreated_serverId h_find, h_same ▸ h_spec.created item h_mem⟩
  · obtain h_s | h_s := List.mem_append.mp h_s
    · have h_cases : (∃ t, r.spec.proxy = .server t ∧ t = s) ∨
          s ∈ r.spec.existing.map ExistingBackendSpec.server := by
        rw [WizardSpec.existingServers] at h_s
        cases h : r.spec.proxy with
        | server t =>
          rw [h] at h_s
          exact (List.mem_cons.mp h_s).imp_left fun h_eq => ⟨t, rfl, h_eq.symm⟩
        | create item =>
          rw [h] at h_s
          exact .inr h_s
      obtain ⟨t, h_t, rfl⟩ | h_s := h_cases
      · refine .inl ?_
        rw [Run.draft, Run.draftProxy, h_t]
        rfl
      · obtain ⟨b, h_b, rfl⟩ := List.mem_map.mp h_s
        exact .inr ⟨_, List.mem_append_left _ (List.mem_map_of_mem h_b), rfl⟩
    · rw [h_made] at h_s
      obtain ⟨c, h_c, rfl⟩ := List.mem_map.mp h_s
      obtain ⟨item, h_mem, h_find⟩ := h_created c h_c
      have h_cases : r.spec.proxy = .create item ∨ item ∈ r.spec.created := by
        rw [WizardSpec.queue] at h_mem
        cases h : r.spec.proxy with
        | server t =>
          rw [h] at h_mem
          exact .inr h_mem
        | create x =>
          rw [h] at h_mem
          obtain rfl | h_mem := List.mem_cons.mp h_mem
          · exact .inl rfl
          · exact .inr h_mem
      obtain h_new | h_mem := h_cases
      · refine .inl ?_
        simp only [Run.draft, Run.draftProxy, h_new, Run.get, h_find]
        rfl
      · exact .inr ⟨_, List.mem_append_right _ (List.mem_map_of_mem h_mem),
          r.draftCreated_serverId h_find⟩

/-- What the tables took of a draft. -/
theorem storable_spec {proxy : Text} {rows : List Member} (h : storable w proxy rows = true) :
    (∃ s ∈ w.servers, s.id = proxy) ∧ (∀ n ∈ w.networks, n.proxyServerId ≠ proxy) ∧
      ∀ m ∈ rows, (∃ s ∈ w.servers, s.id = m.serverId) ∧
        ∀ x ∈ w.members, x.2.serverId ≠ m.serverId := by
  simp only [storable, Bool.and_eq_true, List.all_eq_true, bne_iff_ne] at h
  obtain ⟨⟨⟨h_proxy, h_networks⟩, -⟩, h_rows⟩ := h
  exact ⟨exists_of_server h_proxy, h_networks, fun m h_m =>
    ⟨exists_of_server (h_rows m h_m).1, (h_rows m h_m).2⟩⟩

theorem memberRows_spec {draft : NetworkDraft} {rows : List Member}
    (h : memberRows draft = some rows) :
    (∀ m ∈ rows, ∃ b ∈ draft.backends, b.serverId = some m.serverId) ∧
      ∀ b ∈ draft.backends, ∃ m ∈ rows, b.serverId = some m.serverId := by
  have h_id : ∀ {b : DraftBackend} {m : Member},
      (b.serverId.map fun id => (⟨id, b.aliasName, b.tryOrder⟩ : Member)) = some m →
        b.serverId = some m.serverId := by
    intro b m h
    obtain ⟨id, h_id, rfl⟩ := Option.map_eq_some_iff.mp h
    exact h_id
  obtain ⟨h_backends, h_rows⟩ := Fallible.mem_of_mapM_some h
  refine ⟨fun m h_m => ?_, fun b h_b => ?_⟩
  · obtain ⟨b, h_b, h_eq⟩ := h_rows m h_m
    exact ⟨b, h_b, h_id h_eq⟩
  · obtain ⟨m, h_m, h_eq⟩ := h_backends b h_b
    exact ⟨m, h_m, h_id h_eq⟩

/-- The servers of the rows have the roles that the run knows of. -/
theorem Covers.roles (h_tables : Tables w) (h_run : RunInv w i r) {draft : NetworkDraft}
    (h : Covers r.named draft) {proxy : Text} {rows : List Member}
    (h_proxy : draft.proxy.serverId = some proxy) (h_rows : memberRows draft = some rows)
    (h_store : storable w proxy rows = true) :
    (∃ s ∈ w.servers, s.id = proxy ∧ s.role.isProxy = true) ∧
      ∀ m ∈ rows, ∃ s ∈ w.servers, s.id = m.serverId ∧ s.role.isBackend = true := by
  obtain ⟨⟨s, h_s, h_id⟩, -, h_servers⟩ := storable_spec h_store
  obtain ⟨p, h_p, h_eq, h_role⟩ := h.proxy
  refine ⟨⟨s, h_s, h_id, ?_⟩, fun m h_m => ?_⟩
  · rw [h_proxy] at h_eq
    rw [h_tables.eq_of_known (h_run.known p h_p) h_s (h_id.trans (Option.some.inj h_eq))]
    exact h_role
  · obtain ⟨⟨t, h_t, h_t_id⟩, -⟩ := h_servers m h_m
    obtain ⟨b, h_b, h_b_id⟩ := (memberRows_spec h_rows).1 m h_m
    obtain ⟨x, h_x, h_x_id, h_x_role⟩ := h.backends b h_b
    rw [h_b_id] at h_x_id
    refine ⟨t, h_t, h_t_id, ?_⟩
    rw [h_tables.eq_of_known (h_run.known x h_x) h_t (h_t_id.trans (Option.some.inj h_x_id))]
    exact h_x_role

/-- A server is no proxy and backend at once. -/
theorem Tables.not_both (h : Tables w) (id : Text)
    (h_proxy : ∃ s ∈ w.servers, s.id = id ∧ s.role.isProxy = true)
    (h_backend : ∃ s ∈ w.servers, s.id = id ∧ s.role.isBackend = true) : False := by
  obtain ⟨s, h_s, h_s_id, h_s_role⟩ := h_proxy
  obtain ⟨t, h_t, h_t_id, h_t_role⟩ := h_backend
  have h_eq : s = t := List.inj_on_of_nodup_map h.ids h_s h_t (h_s_id.trans h_t_id.symm)
  rw [h_eq] at h_s_role
  cases h_role : t.role with
  | proxy docker =>
    rw [h_role] at h_t_role
    cases h_t_role
  | backend kind =>
    rw [h_role] at h_s_role
    cases h_s_role
  | other =>
    rw [h_role] at h_t_role
    cases h_t_role

/-- A network that the tables took has all servers of its run, which are in no other. -/
theorem Covers.joined (h_tables : Tables w) (h_run : RunInv w i r) {draft : NetworkDraft}
    (h : Covers r.named draft) {proxy : Text} {rows : List Member}
    (h_proxy : draft.proxy.serverId = some proxy) (h_rows : memberRows draft = some rows)
    (h_store : storable w proxy rows = true) (network : NetworkRecord)
    (h_id : network.id = .ofRun i) (h_server : network.proxyServerId = proxy) :
    Joined (w.create network rows) i r := by
  obtain ⟨h_proxyRole, h_backendRole⟩ := h.roles h_tables h_run h_proxy h_rows h_store
  obtain ⟨-, h_networks, h_servers⟩ := storable_spec h_store
  intro s h_s n
  have h_place : s.id = proxy ∨ ∃ m ∈ rows, m.serverId = s.id := by
    obtain h_eq | ⟨b, h_b, h_eq⟩ := h.named s h_s
    · exact .inl (Option.some.inj (h_eq.symm.trans h_proxy))
    · obtain ⟨m, h_m, h_b_id⟩ := (memberRows_spec h_rows).2 b h_b
      exact .inr ⟨m, h_m, Option.some.inj (h_b_id.symm.trans h_eq)⟩
  constructor
  · rintro (⟨x, h_x, rfl, h_x_proxy⟩ | ⟨x, h_x, rfl, h_x_member⟩)
    · obtain h_x | h_x := List.mem_append.mp h_x
      · -- an older network behind the same server
        exfalso
        obtain h_eq | ⟨m, h_m, h_eq⟩ := h_place
        · exact h_networks x h_x (h_x_proxy.trans h_eq)
        · refine h_tables.not_both s.id ?_ (h_eq ▸ h_backendRole m h_m)
          exact h_x_proxy ▸ h_tables.proxies x h_x
      · rw [List.mem_singleton.mp h_x]
        exact h_id
    · obtain h_x | h_x := List.mem_append.mp h_x
      · -- a member of an older network
        exfalso
        obtain h_eq | ⟨m, h_m, h_eq⟩ := h_place
        · refine h_tables.not_both s.id (h_eq ▸ h_proxyRole) ?_
          exact h_x_member ▸ h_tables.members x h_x
        · exact (h_servers m h_m).2 x h_x (h_x_member.trans h_eq.symm)
      · obtain ⟨m, -, rfl⟩ := List.mem_map.mp h_x
        exact h_id
  · rintro rfl
    obtain h_eq | ⟨m, h_m, h_eq⟩ := h_place
    · exact .inl ⟨network, List.mem_append_right _ (List.mem_singleton_self _), h_id,
        h_server.trans h_eq.symm⟩
    · exact .inr ⟨(network.id, m), List.mem_append_right _ (List.mem_map_of_mem h_m), h_id, h_eq⟩

theorem RunInv.stored (h : RunInv w i r) (network : NetworkRecord) (rows : List Member) :
    RunInv (w.create network rows) i { r with phase := .succeeded } where
  spec := h.spec
  known s h_s := h.known s h_s
  fresh := h.fresh
  progress := trivial
  rows h_open := absurd rfl h_open
  same := h.same
  failed h_eq := Phase.noConfusion h_eq

/-- A run that is past `r.phase` of a draft, in another place of the same draft. -/
theorem RunInv.next {draft : NetworkDraft} {phase : Phase} (h : RunInv w i r)
    (h_open : r.phase ≠ .succeeded)
    (h_progress : Covers r.named draft ∧ r.made = r.created.map Prod.snd)
    (h_phase : (∃ todo, phase = .fabric draft todo) ∨ ∃ todo, phase = .writing draft todo) :
    RunInv w i { r with phase := phase } := by
  refine { h with
    progress := ?_
    rows := fun _ => h.rows h_open
    failed := ?_ }
  · obtain ⟨todo, rfl⟩ | ⟨todo, rfl⟩ := h_phase
    · exact h_progress
    · exact h_progress
  · obtain ⟨todo, rfl⟩ | ⟨todo, rfl⟩ := h_phase
    · exact fun h => Phase.noConfusion h
    · exact fun h => Phase.noConfusion h

theorem wrote_phase (r : Run) (id : Text) (paths : List String) :
    (r.wrote id paths).phase = r.phase := by
  rw [Run.wrote]
  split
  · rfl
  · rfl

theorem wrote_progress {draft : NetworkDraft} (id : Text) (paths : List String)
    (h : Covers r.named draft ∧ r.made = r.created.map Prod.snd) :
    Covers (r.wrote id paths).named draft ∧
      (r.wrote id paths).made = (r.wrote id paths).created.map Prod.snd := by
  rw [Run.wrote]
  split
  · exact h
  · exact h

/-- What a step does to the world, and to its run. -/
inductive Advance (e : Env) (w : World) (i : Nat) (r : Run) : Event → World → Run → Prop
  | makeServer {j : Nat} {item : NewServerSpec} {todo : List NewServerSpec} {id : Text}
      (h_phase : r.phase = .creating (item :: todo)) (h_unused : w.unused id = true) :
      Advance e w i r (.makeServer j id) (w.insert (item.server id))
        { r with
          phase := .installing (item.server id) item todo
          made := r.made ++ [item.server id] }
  | installed {j : Nat} {server : Server} {item : NewServerSpec} {todo : List NewServerSpec}
      (h_phase : r.phase = .installing server item todo) (files : List (String × Text)) :
      Advance e w i r (.installed j files) (w.put i server.id files)
        { r with phase := .creating todo, created := r.created ++ [(item.ref, server)] }
  | draft {j : Nat} (h_phase : r.phase = .creating []) (seen : Files) (fresh : GeneratedSecret)
      (todo : List DraftBackend) :
      Advance e w i r (.draft j seen fresh) w { r with phase := .fabric (r.draft seen fresh) todo }
  | ensure {j : Nat} {draft : NetworkDraft} {b : DraftBackend} {todo : List DraftBackend}
      (h_phase : r.phase = .fabric draft (b :: todo)) (id : Text) (files : List (String × Text)) :
      Advance e w i r (.ensure j files) (w.put i id files)
        { r.wrote id (files.map Prod.fst) with phase := .fabric draft todo }
  | plan {j : Nat} {draft : NetworkDraft} (h_phase : r.phase = .fabric draft []) (seen : Files)
      (todo : List (Text × FileEdit)) :
      Advance e w i r (.plan j seen) w { r with phase := .writing draft todo }
  | write {j : Nat} {draft : NetworkDraft} {id : Text} {edit : FileEdit}
      {todo : List (Text × FileEdit)} (h_phase : r.phase = .writing draft ((id, edit) :: todo)) :
      Advance e w i r (.write j) (w.put i id [(edit.path, edit.after)])
        { r.wrote id [edit.path] with phase := .writing draft todo }
  | store {j : Nat} {draft : NetworkDraft} {proxy : Text} {rows : List Member}
      (h_phase : r.phase = .writing draft []) (h_proxy : draft.proxy.serverId = some proxy)
      (h_rows : memberRows draft = some rows) (h_store : storable w proxy rows = true) :
      Advance e w i r (.store j) (w.create ⟨.ofRun i, r.spec.name, proxy, r.spec.mode⟩ rows)
        { r with phase := .succeeded }
  | leaves {j : Nat} {draft : NetworkDraft} {b : DraftBackend} {todo : List DraftBackend}
      (h_phase : r.phase = .fabric draft (b :: todo)) {id : Text} (h_id : b.serverId = some id)
      (left : List (String × Text)) :
      Advance e w i r (.fail j left)
        ((w.put i id left).discard (some i) (r.wrote id (left.map Prod.fst)).discarded)
        { r.wrote id (left.map Prod.fst) with phase := .failed }
  | throws {ev : Event} (h_throws : throws e w r ev = true) (h_early : r.early ev = r.changed.isEmpty)
      (h_open : r.phase ≠ .succeeded) (h_run : r.phase ≠ .failed) :
      Advance e w i r ev (w.discard (some i) r.discarded) { r with phase := .failed }

theorem Phase.unfinished {phase : Phase} (h : (∃ todo, phase = .creating todo) ∨
      (∃ server item todo, phase = .installing server item todo) ∨
      (∃ draft todo, phase = .fabric draft todo) ∨ ∃ draft todo, phase = .writing draft todo) :
    phase ≠ .succeeded ∧ phase ≠ .failed := by
  obtain ⟨_, rfl⟩ | ⟨_, _, _, rfl⟩ | ⟨_, _, rfl⟩ | ⟨_, _, rfl⟩ := h <;>
    exact ⟨Phase.noConfusion, Phase.noConfusion⟩

/-- A step of a run is one of these. -/
theorem advance_of_stepRun {ev : Event} (h_step : stepRun e w i r ev = some w') :
    ∃ t s, Advance e w i r ev t s ∧ w' = t.setRun i s := by
  cases ev with
  | makeServer j id =>
    simp only [stepRun] at h_step
    split at h_step
    · rename_i item todo h_phase
      split at h_step
      · rename_i h_unused
        cases h_step
        exact ⟨_, _, .makeServer h_phase h_unused, rfl⟩
      · cases h_step
    · cases h_step
  | installed j files =>
    simp only [stepRun] at h_step
    split at h_step
    · rename_i server item todo h_phase
      cases h_step
      exact ⟨_, _, .installed h_phase files, rfl⟩
    · cases h_step
  | draft j seen fresh =>
    simp only [stepRun] at h_step
    split at h_step
    · rename_i h_phase
      cases h_step
      exact ⟨_, _, .draft h_phase seen fresh _, rfl⟩
    · cases h_step
  | ensure j files =>
    simp only [stepRun] at h_step
    split at h_step
    · rename_i draft b todo h_phase
      split at h_step
      · rename_i id _
        cases h_step
        exact ⟨_, _, .ensure h_phase id files, rfl⟩
      · cases h_step
    · cases h_step
  | plan j seen =>
    simp only [stepRun] at h_step
    split at h_step
    · rename_i draft h_phase
      split at h_step
      · cases h_step
        exact ⟨_, _, .plan h_phase seen _, rfl⟩
      · rename_i h_edits
        cases h_step
        obtain ⟨h_open, h_run⟩ := Phase.unfinished (.inr (.inr (.inl ⟨_, _, h_phase⟩)))
        refine ⟨_, _, .throws ?_ rfl h_open h_run, rfl⟩
        simp only [throws, h_phase, h_edits, Option.isNone_none]
    · cases h_step
  | write j =>
    simp only [stepRun] at h_step
    split at h_step
    · rename_i draft id edit todo h_phase
      cases h_step
      exact ⟨_, _, .write h_phase, rfl⟩
    · cases h_step
  | store j =>
    simp only [stepRun] at h_step
    split at h_step
    · rename_i draft h_phase
      obtain ⟨h_open, h_run⟩ := Phase.unfinished (.inr (.inr (.inr ⟨_, _, h_phase⟩)))
      split at h_step
      · rename_i proxy rows h_proxy h_rows
        split at h_step
        · rename_i h_store
          cases h_step
          exact ⟨_, _, .store h_phase h_proxy h_rows h_store, rfl⟩
        · rename_i h_store
          cases h_step
          refine ⟨_, _, .throws ?_ rfl h_open h_run, rfl⟩
          simp only [throws, h_phase, h_proxy, h_rows, h_store, Bool.not_false]
      · rename_i h_none
        cases h_step
        refine ⟨_, _, .throws ?_ rfl h_open h_run, rfl⟩
        simp only [throws, h_phase]
    · cases h_step
  | fail j left =>
    simp only [stepRun] at h_step
    split at h_step
    · cases h_step
    · cases h_step
    · rename_i draft b todo h_phase
      obtain ⟨h_open, h_run⟩ := Phase.unfinished (.inr (.inr (.inl ⟨_, _, h_phase⟩)))
      split at h_step
      · rename_i id h_id
        cases h_step
        exact ⟨_, _, .leaves h_phase h_id left, rfl⟩
      · rename_i h_id
        cases h_step
        refine ⟨_, _, .throws rfl ?_ h_open h_run, rfl⟩
        simp only [Run.early, Run.left, h_phase, h_id]
    · rename_i h_failed h_succeeded h_fabric
      cases h_step
      refine ⟨_, _, .throws rfl ?_ h_succeeded h_failed, rfl⟩
      rw [Run.early, Run.left]
      split
      · exact absurd ‹_› (h_fabric _ _ _)
      · rfl
  | request props ports => cases h_step
  | edit id path text => cases h_step
  | createServer server => cases h_step
  | deleteServer id => cases h_step
  | setMembers network rows => cases h_step
  | deleteNetwork network => cases h_step

theorem Advance.moves {ev : Event} {s : Run} (h : Advance e w i r ev w' s) : Moves (some i) w w' := by
  cases h with
  | makeServer _ _ => exact moves_insert _ w _
  | installed _ files => exact moves_put w i _ files
  | draft _ _ _ _ => exact .refl _ w
  | ensure _ id files => exact moves_put w i id files
  | plan _ _ _ => exact .refl _ w
  | write _ => exact moves_put w i _ _
  | store _ _ _ _ => exact moves_create w i _ _ rfl
  | leaves _ _ left => exact (moves_put w i _ left).trans (moves_discard _ _ _)
  | throws _ _ _ _ => exact moves_discard _ w _

theorem Advance.inv {ev : Event} {s : Run} (h : Advance e w i r ev w' s) (h_tables : Tables w)
    (h_run : RunInv w i r) (h_guard : Wizard.throws e w r ev = true → r.early ev = true) :
    Tables w' ∧ RunInv w' i s := by
  have h_progress := h_run.progress
  rw [Run.Progress] at h_progress
  cases h with
  | makeServer h_phase h_unused =>
    exact ⟨h_tables.insert h_unused, h_run.makeServer h_tables h_phase h_unused⟩
  | installed h_phase files => exact ⟨h_tables.put i _ files, h_run.installed h_phase files⟩
  | draft h_phase seen fresh todo =>
    rw [h_phase] at h_progress
    obtain ⟨done, h_queue, h_done, h_made⟩ := h_progress
    rw [List.append_nil] at h_queue
    have h_covers := r.covers_draft h_run.spec (h_queue ▸ h_done) h_made seen fresh
    obtain ⟨h_open, -⟩ := Phase.unfinished (.inl ⟨_, h_phase⟩)
    exact ⟨h_tables, h_run.next h_open ⟨h_covers, h_made⟩ (.inl ⟨_, rfl⟩)⟩
  | ensure h_phase id files =>
    obtain ⟨h_open, h_fresh⟩ := Phase.unfinished (.inr (.inr (.inl ⟨_, _, h_phase⟩)))
    rw [h_phase] at h_progress
    exact ⟨h_tables.put i id files, (h_run.put id files h_fresh).next
      (by rw [wrote_phase]; exact h_open) (wrote_progress id _ h_progress) (.inl ⟨_, rfl⟩)⟩
  | plan h_phase seen todo =>
    obtain ⟨h_open, -⟩ := Phase.unfinished (.inr (.inr (.inl ⟨_, _, h_phase⟩)))
    rw [h_phase] at h_progress
    exact ⟨h_tables, h_run.next h_open h_progress (.inr ⟨_, rfl⟩)⟩
  | @write _ _ id edit _ h_phase =>
    obtain ⟨h_open, h_fresh⟩ := Phase.unfinished (.inr (.inr (.inr ⟨_, _, h_phase⟩)))
    rw [h_phase] at h_progress
    exact ⟨h_tables.put i id _, (h_run.put id [(edit.path, edit.after)] h_fresh).next
      (by rw [wrote_phase]; exact h_open) (wrote_progress id _ h_progress) (.inr ⟨_, rfl⟩)⟩
  | store h_phase h_proxy h_rows h_store =>
    rw [h_phase] at h_progress
    obtain ⟨h_proxyRole, h_backendRole⟩ :=
      h_progress.1.roles h_tables h_run h_proxy h_rows h_store
    exact ⟨h_tables.create h_proxyRole h_backendRole, h_run.stored _ _⟩
  | @leaves _ _ _ _ h_phase id h_id left =>
    obtain ⟨h_open, h_fresh⟩ := Phase.unfinished (.inr (.inr (.inl ⟨_, _, h_phase⟩)))
    have h_early : r.early (.fail i left) = true := h_guard rfl
    simp only [Run.early, Run.left, h_phase, h_id, List.isEmpty_iff] at h_early
    have h_put := h_run.put id left h_fresh
    rw [← wrote_phase r id (left.map Prod.fst)] at h_open h_fresh
    exact ⟨(discard_spec (i := i) _ _ _).1 (h_tables.put i id left),
      h_put.failRun h_open h_fresh h_early⟩
  | throws h_throws h_early h_open h_fresh =>
    have h_nothing := List.isEmpty_iff.mp (h_early ▸ h_guard h_throws)
    exact ⟨(discard_spec (i := i) _ _ w).1 h_tables, h_run.failRun h_open h_fresh h_nothing⟩

end Own

/-! ## The other steps -/

section Other

variable {e : Env} {w w' : World} {props : NetworkWizardProps} {ports : Nat → Nat}

theorem server_mem_existingSpecs {order : List Ref} {backends : List Server} {names : List Text}
    {b : ExistingBackendSpec} (h : b ∈ existingSpecs order backends names) :
    b.server ∈ backends := by
  obtain ⟨⟨s, aliasName⟩, h_mem, rfl⟩ := List.mem_map.mp h
  exact (List.of_mem_zip h_mem).1

theorem role_of_mem_createdSpecs {order : List Ref} {fresh : List NewServerOptions}
    {names : List Text} {item : NewServerSpec} (h : item ∈ createdSpecs order ports fresh names) :
    ∃ o ∈ fresh, item.role = o.role := by
  obtain ⟨i, h_i, rfl⟩ := List.mem_mapIdx.mp h
  exact ⟨_, (List.of_mem_zip (List.getElem_mem h_i)).1, rfl⟩

theorem refs_createdSpecs (order : List Ref) (ports : Nat → Nat) (fresh : List NewServerOptions)
    (names : List Text) :
    ((createdSpecs order ports fresh names).map NewServerSpec.ref).Nodup ∧
      Ref.proxy ∉ (createdSpecs order ports fresh names).map NewServerSpec.ref := by
  have h_refs : (createdSpecs order ports fresh names).map NewServerSpec.ref =
      (List.range (fresh.zip names).length).map Ref.fresh := by
    apply List.ext_getElem
    · simp [createdSpecs]
    · intro i h_i h_i'
      simp [createdSpecs, newSpec]
  rw [h_refs]
  refine ⟨List.nodup_range.map fun i j h_eq => Ref.fresh.inj h_eq, fun h_mem => ?_⟩
  obtain ⟨i, -, h_eq⟩ := List.mem_map.mp h_mem
  cases h_eq

theorem resolveProxy_spec {port : Nat} {proxy : ProxySpec}
    (h : resolveProxy w props port = some proxy) :
    (∃ s ∈ w.servers, proxy = .server s ∧ s.role.isProxy = true) ∨
      ∃ item, proxy = .create item ∧ item.role.isProxy = true ∧ item.ref = .proxy := by
  simp only [resolveProxy] at h
  split at h
  · obtain ⟨s, h_s, rfl⟩ := Option.map_eq_some_iff.mp h
    obtain ⟨h_free, h_role⟩ := Option.filter_eq_some_iff.mp h_s
    have h_found := (Option.filter_eq_some_iff.mp h_free).1
    exact .inl ⟨s, List.mem_of_find?_eq_some h_found, rfl, h_role⟩
  · rename_i o _ _
    split at h
    · rename_i docker h_role
      cases h
      exact .inr ⟨_, rfl, by rw [newSpec, h_role]; rfl, rfl⟩
    · cases h
  · cases h

theorem existingBackends_spec {backends : List Server} (h : existingBackends w props = some backends) :
    ∀ s ∈ backends, s ∈ w.servers ∧ s.role.isBackend = true := by
  rw [existingBackends] at h
  split at h
  · cases h
  · intro s h_s
    obtain ⟨id, -, h_id⟩ := (Fallible.mem_of_mapM_some h).2 s h_s
    obtain ⟨h_free, h_role⟩ := Option.filter_eq_some_iff.mp h_id
    have h_found := (Option.filter_eq_some_iff.mp h_free).1
    exact ⟨List.mem_of_find?_eq_some h_found, h_role⟩

theorem newBackends_spec {fresh : List NewServerOptions} (h : newBackends props = some fresh) :
    ∀ o ∈ fresh, o.role.isBackend = true := by
  rw [newBackends] at h
  split at h
  · cases h
  · rename_i h_not
    cases h
    have h_all : props.newBackends.all (fun o => o.role.isBackend) = true := by
      by_contra h_some
      exact h_not (.inr (.inr h_some))
    exact List.all_eq_true.mp h_all

/-- What `resolve` promises of its specification. -/
theorem resolve_sound {spec : WizardSpec} (h : resolve e w props ports = some spec) :
    spec.Sound ∧ ∀ s ∈ spec.existingServers, s ∈ w.servers := by
  rw [resolve] at h
  split at h
  · cases h
  · obtain ⟨proxy, h_proxy, h⟩ := Option.bind_eq_some_iff.mp h
    obtain ⟨backends, h_backends, h⟩ := Option.bind_eq_some_iff.mp h
    obtain ⟨fresh, h_fresh, h⟩ := Option.bind_eq_some_iff.mp h
    obtain ⟨order, -, h⟩ := Option.bind_eq_some_iff.mp h
    obtain ⟨mode, -, h⟩ := Option.bind_eq_some_iff.mp h
    split at h
    · cases h
    · cases h
      have h_servers : ∀ s ∈ (existingSpecs order backends (aliases e.fold []
          (backends.map Server.name ++ fresh.map fun o => trim o.name))).map
          ExistingBackendSpec.server, s ∈ w.servers := by
        intro s h_s
        obtain ⟨b, h_b, rfl⟩ := List.mem_map.mp h_s
        exact (existingBackends_spec h_backends _ (server_mem_existingSpecs h_b)).1
      refine ⟨{ proxy := ?_, existing := fun b h_b => ?_, created := fun item h_item => ?_,
                refs := ?_ }, ?_⟩
      · obtain ⟨s, -, rfl, h_role⟩ | ⟨item, rfl, h_role, -⟩ := resolveProxy_spec h_proxy
        · exact h_role
        · exact h_role
      · exact (existingBackends_spec h_backends _ (server_mem_existingSpecs h_b)).2
      · obtain ⟨o, h_o, h_role⟩ := role_of_mem_createdSpecs h_item
        exact h_role ▸ newBackends_spec h_fresh o h_o
      · obtain ⟨h_nodup, h_new⟩ := refs_createdSpecs order ports fresh ((aliases e.fold []
          (backends.map Server.name ++ fresh.map fun o => trim o.name)).drop backends.length)
        rw [WizardSpec.queue]
        obtain ⟨s, -, rfl, -⟩ | ⟨item, rfl, -, h_ref⟩ := resolveProxy_spec h_proxy
        · exact h_nodup
        · rw [List.map_cons, h_ref]
          exact List.nodup_cons.mpr ⟨h_new, h_nodup⟩
      · rw [WizardSpec.existingServers]
        obtain ⟨p, h_p, rfl, -⟩ | ⟨item, rfl, -, -⟩ := resolveProxy_spec h_proxy
        · exact List.forall_mem_cons.mpr ⟨h_p, h_servers⟩
        · exact h_servers

/-- A step of none of the runs. -/
theorem Inv.moves (h : Inv w) (h_moves : Moves none w w') (h_tables : Tables w') : Inv w' where
  tables := h_tables
  runs j r h_r := RunInv.moves h_moves nofun h_r (h.runs j)
  rows j h_j := by
    refine h_moves.rows j nofun (h.rows j ?_)
    rw [List.getElem?_eq_none_iff] at h_j ⊢
    exact h_moves.length ▸ h_j

/-- A run that starts. -/
theorem Inv.request (h : Inv w) {spec : WizardSpec} (h_spec : resolve e w props ports = some spec) :
    Inv { w with runs := w.runs ++
      [{ spec := spec, phase := .creating spec.queue, without := w.files }] } := by
  obtain ⟨h_sound, h_existing⟩ := resolve_sound h_spec
  refine ⟨⟨h.tables.ids, h.tables.gone, h.tables.proxies, h.tables.members⟩,
    fun i r h_r => ?_, fun i h_i => ?_⟩
  · rw [List.getElem?_append] at h_r
    split at h_r
    · exact { h.runs i r h_r with }
    · rename_i h_lt
      have h_none : w.runs[i]? = none := List.getElem?_eq_none (Nat.le_of_not_lt h_lt)
      have h_new := List.mem_of_getElem? h_r
      rw [List.mem_singleton.mp h_new]
      exact { spec := h_sound
              known := fun s h_s => .inl (h_existing s (by simpa [Run.named] using h_s))
              fresh := List.forall_mem_nil _
              progress := ⟨[], rfl, .nil, rfl⟩
              rows := fun _ => h.rows i h_none
              same := fun _ _ _ _ => rfl
              failed := fun h => Phase.noConfusion h }
  · refine h.rows i (List.getElem?_eq_none ?_)
    have h_le := List.getElem?_eq_none_iff.mp h_i
    simp only [List.length_append] at h_le
    exact Nat.le_of_add_right_le h_le

/-- A step that is none of a run leaves the runs alone or starts one. -/
theorem moves_of_stepOther {ev : Event} (h_step : stepOther e w ev = some w') :
    (Moves none w w' ∧ (Tables w → Tables w')) ∨
      ∃ props ports spec, resolve e w props ports = some spec ∧ w' = { w with runs := w.runs ++
        [{ spec := spec, phase := .creating spec.queue, without := w.files }] } := by
  cases ev with
  | request props ports =>
    obtain ⟨spec, h_spec, rfl⟩ := Option.map_eq_some_iff.mp h_step
    exact .inr ⟨props, ports, spec, h_spec, rfl⟩
  | edit id path text =>
    cases h_step
    exact .inl ⟨moves_alter none w _, fun h => h.alter none _⟩
  | createServer server =>
    simp only [stepOther] at h_step
    split at h_step
    · rename_i h_unused
      cases h_step
      exact .inl ⟨moves_insert none w server, fun h => h.insert h_unused⟩
    · cases h_step
  | deleteServer id =>
    cases h_step
    exact .inl ⟨moves_delete none w id, fun h => h.delete none id⟩
  | setMembers network rows =>
    simp only [stepOther] at h_step
    split at h_step
    · rename_i h_rows
      cases h_step
      refine .inl ⟨{ Moves.refl none w with rows := fun j _ h_none => ⟨h_none.1, fun m h_m => ?_⟩ },
        fun h => h.setMembers h_rows⟩
      obtain h_m | h_m := List.mem_append.mp h_m
      · exact h_none.2 m (List.mem_filter.mp h_m).1
      · obtain ⟨x, -, rfl⟩ := List.mem_map.mp h_m
        simp only [replaceable, Bool.and_eq_true, List.any_eq_true] at h_rows
        obtain ⟨⟨⟨n, h_n, h_id⟩, -⟩, -⟩ := h_rows
        exact fun h_eq => h_none.1 n h_n ((eq_of_beq h_id).trans h_eq)
    · cases h_step
  | deleteNetwork network =>
    cases h_step
    exact .inl ⟨{ Moves.refl none w with
      rows := fun j _ h_none => ⟨fun n h_n => h_none.1 n (List.mem_filter.mp h_n).1,
        fun m h_m => h_none.2 m (List.mem_filter.mp h_m).1⟩ }, fun h => h.deleteNetwork network⟩
  | makeServer i id => cases h_step
  | installed i files => cases h_step
  | draft i seen fresh => cases h_step
  | ensure i files => cases h_step
  | plan i seen => cases h_step
  | write i => cases h_step
  | store i => cases h_step
  | fail i left => cases h_step

end Other

/-! ## Every run -/

section Runs

variable {e : Env} {w w' : World}

/-- A step is one of a run, or leaves the runs alone, or starts one. -/
theorem step_cases {ev : Event} (h_step : step e w ev = some w') :
    (Moves none w w' ∧ (Tables w → Tables w')) ∨
      (∃ props ports spec, resolve e w props ports = some spec ∧ w' = { w with runs := w.runs ++
        [{ spec := spec, phase := .creating spec.queue, without := w.files }] }) ∨
      ∃ i r t s, ev.run = some i ∧ w.runs[i]? = some r ∧ Advance e w i r ev t s ∧
        w' = t.setRun i s := by
  rw [step] at h_step
  split at h_step
  · exact (moves_of_stepOther h_step).imp_right .inl
  · rename_i i h_ev
    split at h_step
    · cases h_step
    · rename_i r h_r
      obtain ⟨t, s, h_advance, h_eq⟩ := advance_of_stepRun h_step
      exact .inr (.inr ⟨i, r, t, s, h_ev, h_r, h_advance, h_eq⟩)

theorem Inv.step {ev : Event} (h : Inv w) (h_guard : failsEarly e w ev = true)
    (h_step : step e w ev = some w') : Inv w' := by
  obtain ⟨h_moves, h_tables⟩ | ⟨props, ports, spec, h_spec, rfl⟩ |
    ⟨i, r, t, s, h_ev, h_r, h_advance, rfl⟩ := step_cases h_step
  · exact h.moves h_moves (h_tables h.tables)
  · exact h.request h_spec
  · obtain ⟨h_tables, h_run⟩ := h_advance.inv h.tables (h.runs i r h_r) fun h_throws => by
      rw [failsEarly, h_ev, Option.bind_some, h_r] at h_guard
      simpa [h_throws] using h_guard
    exact h.own h_r h_advance.moves h_tables h_run

theorem inv_of_reachableUnder
    (h : (machine e).ReachableUnder (fun w ev => failsEarly e w ev = true) w) : Inv w := by
  refine h.invariant (P := Inv) (fun w h_init => ?_) fun w ev w' h_inv h_guard h_step =>
    h_inv.step h_guard h_step
  obtain ⟨h_tables, h_runs, h_rows⟩ := h_init
  exact ⟨h_tables, fun i r h_r => by simp [h_runs] at h_r, fun i _ => h_rows i⟩

theorem RunInv.undone {i : Nat} {r : Run} (h_tables : Tables w) (h : RunInv w i r)
    (h_failed : r.phase = .failed) : Undone w i r := by
  obtain ⟨h_changed, h_gone⟩ := h.failed h_failed
  refine ⟨h.rows (by rw [h_failed]; exact Phase.noConfusion), fun s h_s t h_t h_id => ?_,
    fun s h_s => ?_⟩
  · exact h_tables.gone t h_t (h_id ▸ h_gone s h_s)
  · funext path
    refine h.same s.id path (fun t h_t => (h.fresh t h_t s h_s).symm) ?_
    rw [h_changed]
    exact List.not_mem_nil

/-- The step by which a run succeeds puts its servers into its network. -/
theorem joined_of_step {ev : Event} {i : Nat} {r' : Run} (h : Inv w)
    (h_step : Wizard.step e w ev = some w') (h_r' : w'.runs[i]? = some r')
    (h_succeeded : r'.phase = .succeeded) (h_before : ∀ r, w.runs[i]? = some r → r.phase ≠ .succeeded) :
    Joined w' i r' := by
  have h_other : ∀ own t, Moves own w t → own ≠ some i → t.runs[i]? = some r' → Joined w' i r' := by
    intro own t h_moves h_own h_t
    obtain ⟨r, without, h_r, rfl, -⟩ := h_moves.others i r' h_own h_t
    exact absurd h_succeeded (h_before r h_r)
  obtain ⟨h_moves, -⟩ | ⟨props, ports, spec, h_spec, rfl⟩ |
    ⟨j, r, t, s, -, h_r, h_advance, rfl⟩ := step_cases h_step
  · exact h_other none w' h_moves nofun h_r'
  · rw [List.getElem?_append] at h_r'
    split at h_r'
    · exact absurd h_succeeded (h_before r' h_r')
    · rw [List.mem_singleton.mp (List.mem_of_getElem? h_r')] at h_succeeded
      cases h_succeeded
  · by_cases h_ij : j = i
    · subst h_ij
      have h_lt : j < t.runs.length :=
        h_advance.moves.length ▸ (List.getElem?_eq_some_iff.mp h_r).1
      have h_at : (t.setRun j s).runs[j]? = some s := List.getElem?_set_self h_lt
      cases h_at.symm.trans h_r'
      cases h_advance with
      | store h_phase h_proxy h_rows h_store =>
        have h_run := h.runs j r h_r
        have h_progress := h_run.progress
        rw [Run.Progress, h_phase] at h_progress
        exact h_progress.1.joined h.tables h_run h_proxy h_rows h_store _ rfl rfl
      | _ => cases h_succeeded
    · have h_own : some j ≠ some i := fun h_eq => h_ij (Option.some.inj h_eq)
      exact h_other (some j) _ (h_advance.moves.trans (moves_setRun t j s)) h_own h_r'

/-- The runs that failed are undone, and one that succeeds joins its servers. -/
def Settles (e : Env) (w : World) : Prop :=
  (∀ i r, w.runs[i]? = some r → r.phase = .failed → Undone w i r) ∧
    ∀ ev w' i r', (machine e).step w ev = some w' → w'.runs[i]? = some r' →
      r'.phase = .succeeded → (∀ r, w.runs[i]? = some r → r.phase ≠ .succeeded) → Joined w' i r'

/-- A run that throws before it has changed a file of a server that it did not make is undone
    for good, whatever the other runs and requests do. -/
theorem settles_of_reachableUnder (e : Env) {w : World}
    (h : (machine e).ReachableUnder (fun w ev => failsEarly e w ev = true) w) : Settles e w := by
  have h_inv := inv_of_reachableUnder h
  exact ⟨fun i r h_r h_failed => (h_inv.runs i r h_r).undone h_inv.tables h_failed,
    fun ev w' i r' h_step h_r' h_succeeded h_before =>
      joined_of_step h_inv h_step h_r' h_succeeded h_before⟩

end Runs

/-! ## A network that is linked, and one that is left half written -/

def plainEnv : Env where
  velocity := emptyLib
  yaml := plainYaml
  fold text := text
  lower text := text

def velocityServer : Server :=
  ⟨unitsOf "p", unitsOf "Proxy", none, 25577, false, .proxy false⟩

def spigotServer : Server :=
  ⟨unitsOf "b", unitsOf "Lobby", none, 25566, false, .backend .spigot⟩

/-- A proxy and a backend that were not started yet. -/
def freshPanel : World where
  servers := [velocityServer, spigotServer]
  files _ _ := none

theorem freshPanel_init (e : Env) : (machine e).init freshPanel :=
  ⟨⟨by decide, fun _ _ => List.not_mem_nil, List.forall_mem_nil _, List.forall_mem_nil _⟩, rfl,
    fun _ => ⟨List.forall_mem_nil _, List.forall_mem_nil _⟩⟩

/-- Both of them are linked. -/
def linkProps : NetworkWizardProps where
  name := unitsOf "net"
  proxyServerId := some (unitsOf "p")
  newProxy := none
  backendIds := [unitsOf "b"]
  newBackends := []
  tryOrder := []
  forwardingMode := none
  proxySettings _ := none

def freshSecret : GeneratedSecret := SharedSecret.generated "v8Hd" (by decide)

/-- A run from its request to the edits it is going to write. -/
def planned (i : Nat) : List Event :=
  [.request linkProps fun _ => 0, .draft i freshPanel.files freshSecret, .plan i freshPanel.files]

/-- A run that fails before it writes, and one that writes its four files and stores. -/
def linkedAtLast : List Event :=
  planned 0 ++ [.fail 0 []] ++ planned 1 ++ [.write 1, .write 1, .write 1, .write 1, .store 1]

theorem settles_linkedAtLast :
    ∃ w, (machine plainEnv).runUnder (failsEarly plainEnv) freshPanel linkedAtLast = some w ∧
      (∃ r, w.runs[0]? = some r ∧ r.phase = .failed) ∧
      (∃ r, w.runs[1]? = some r ∧ r.phase = .succeeded) ∧ Settles plainEnv w :=
  ⟨_, rfl, ⟨_, rfl, rfl⟩, ⟨_, rfl, rfl⟩, settles_of_reachableUnder plainEnv
    ((machine plainEnv).reachableUnder_of_runUnder (s := freshPanel) linkedAtLast
      (.init (freshPanel_init plainEnv)) rfl)⟩

/-- The second file cannot be written. -/
def halfWritten : List Event := planned 0 ++ [.write 0, .fail 0 []]

/-- The proxy keeps the config of a network that was never stored. -/
theorem proxy_stays_configured : ¬ ∀ (e : Env) (w : World), (machine e).Reachable w → Settles e w := by
  intro h
  have h_run := (Option.some_get (x := (machine plainEnv).run freshPanel halfWritten) rfl).symm
  obtain ⟨h_failed, -⟩ := h plainEnv _
    ((machine plainEnv).reachable_of_run halfWritten (.init (freshPanel_init plainEnv)) h_run)
  have h_files := (h_failed 0 _ rfl rfl).files velocityServer List.mem_cons_self
  have h_config := congrFun h_files VELOCITY_CONFIG
  exact absurd h_config (by decide +kernel)

end Kubek.Networks.Wizard
