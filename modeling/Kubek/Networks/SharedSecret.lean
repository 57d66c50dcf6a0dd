/-
  Kubek.Networks.SharedSecret

  The secret of modern forwarding through the changes of a stored network
  (`network-members.service.ts`, `draftOf` and `write` of `network-context.service.ts`), which
  come one after another and may fail at any file they write.

  A change writes the proxy first and then the backends it configures, file by file and
  without a way back. `draftOf` makes up a secret where the proxy has none, and only
  `rotateSecret` configures all backends. So the network keeps one secret in the runs in which
  (`meets`)

    * a backend that stays and is not configured holds the secret of the draft, or the proxy
      has one already;
    * a backend that is configured loads what was written into its config;
    * no write fails between the secret of the proxy and the last backend that needs it.
-/

import Kubek.Lib.Machine
import Kubek.Lib.Fallible
import Kubek.Networks.Review

namespace Kubek.Networks.SharedSecret

open Properties (Text trim unitsOf)
open Transition

/-! ## The system -/

/-- A secret of `generateSecret`. -/
structure GeneratedSecret where
  text : Text
  nonempty : text ≠ []
  plain : ∀ c ∈ text, Toml.isBareUnit c = true

/-- A server that can run behind Velocity, as the drafts read it. -/
structure Host where
  server : DraftServer
  kind : BackendForwardingKind

/-- The panel around one network in modern mode. -/
structure Estate where
  lib : VelocityLib
  yaml : Yaml
  /-- `toLowerCase().normalize("NFKD")`. -/
  fold : Text → Text
  proxyId : Text
  proxy : DraftProxy
  host : Text → Option Host
  /-- The secret that a backend takes from its forwarding config, if there is such a file. -/
  loads : BackendForwardingKind → Option Text → Option Text
  /-- Velocity has no forwarding of its own. -/
  proxy_host : host proxyId = none

abbrev Files := Text → String → Option Text

inductive Outcome
  | succeeded
  /-- The request is wrong. -/
  | refused
  /-- A file could not be read or written. -/
  | failed
  /-- The table does not take the rows. -/
  | rejected
  deriving DecidableEq, Repr

structure World where
  files : Files
  rows : List Member
  /-- Of the last change. -/
  outcome : Option Outcome := none

structure Event where
  change : Change
  /-- What `generateSecret` returns in `draftOf`. -/
  fresh : GeneratedSecret
  /-- What it returns in `rotateSecret`. -/
  rotated : GeneratedSecret
  /-- How many files are written before one cannot be. -/
  fault : Option Nat

namespace Estate

variable (e : Estate)

/-- `draftProxy`. -/
def draftProxy : DraftProxy := { e.proxy with serverId := some e.proxyId }

/-- `draftBackend`. -/
def draftBackend (m : Member) : Option DraftBackend :=
  (e.host m.serverId).map fun h =>
    { h.server with
      serverId := some m.serverId, aliasName := m.aliasName, tryOrder := m.tryOrder,
      forwarding := h.kind }

def panel : Panel where
  fold := e.fold
  name s := ((e.host s).map fun h => h.server.name).getD []
  serves s := (e.host s).isSome
  address s := ((e.draftBackend ⟨s, [], none⟩).map (backendAddress e.draftProxy)).getD []

/-- `readSecret`. -/
def secret (w : World) : Text := ((w.files e.proxyId FORWARDING_SECRET_FILE).map trim).getD []

/-- The secret of the draft that a change commits. -/
def draftSecret (w : World) (ev : Event) : Text :=
  match ev.change with
  | .rotateSecret => ev.rotated.text
  | _ => if e.secret w = [] then ev.fresh.text else e.secret w

/-- The backends whose files a change writes. -/
def configured (rows : List Member) : Change → List Member
  | .addMember s => [added e.panel s (draftOf e.panel rows)]
  | .rotateSecret => draftOf e.panel rows
  | .removeMember _ => []
  | .setOrder _ => []

def draft (backends : List Member) (secret : Text) : NetworkDraft where
  proxy := e.draftProxy
  backends := backends.filterMap e.draftBackend
  mode := .modern
  secret := secret
  settings := fun _ => none

/-- The checks of a request. -/
def accepts (w : World) : Change → Bool
  | .addMember s =>
      (e.host s).any (fun h => (forwardingModes h.server.gameVersion h.kind).contains .modern) &&
        w.rows.all fun m => m.serverId != s
  | _ => true

/-- `filesOf`. -/
def filesOf (files : Files) : DraftServer → ServerFiles := fun server path =>
  some (server.serverId.bind fun id => files id path)

/-- The files that a change writes, in this order, each with its server. -/
def writesOf (edits : List ServerEdits) : List (Text × FileEdit) :=
  edits.flatMap fun entry =>
    match entry.server.serverId with
    | some id => entry.edits.map fun edit => (id, edit)
    | none => []

def writeFile (files : Files) (write : Text × FileEdit) : Files := fun id path =>
  if id = write.1 ∧ path = write.2.path then some write.2.after else files id path

def writeAll (files : Files) (writes : List (Text × FileEdit)) : Files :=
  writes.foldl writeFile files

/-- The writes of a change; none where an editor throws. -/
def writes (w : World) (ev : Event) (backends : List Member) : Option (List (Text × FileEdit)) :=
  (draftEdits e.lib e.yaml (e.draft backends (e.draftSecret w ev))
    ((e.configured w.rows ev.change).filterMap e.draftBackend) (filesOf w.files)).map writesOf

/-- `commit`. -/
def commit (w : World) (ev : Event) (backends : List Member) : World :=
  match e.writes w ev backends with
  | none => { w with outcome := some .failed }
  | some writes =>
      match ev.fault.filter (· < writes.length) with
      | some k => { w with files := writeAll w.files (writes.take k), outcome := some .failed }
      | none =>
          if insertable backends then
            { files := writeAll w.files writes, rows := backends, outcome := some .succeeded }
          else { w with files := writeAll w.files writes, outcome := some .rejected }

/-- A whole change. -/
def call (w : World) (ev : Event) : World :=
  if e.accepts w ev.change then
    match drafted e.panel w.rows ev.change with
    | some backends => e.commit w ev backends
    | none => { w with outcome := some .refused }
  else { w with outcome := some .refused }

/-! ## One secret -/

/-- The config with the secret of a backend. Plain Spigot has none. -/
def configFile (gameVersion : Option Text) : BackendForwardingKind → Option String
  | .fabric => some FABRIC_PROXY_CONFIG
  | .paper => some (if isBefore gameVersion (unitsOf "1.19") then PAPER_LEGACY else PAPER_GLOBAL)
  | .spigot => none

/-- The secret that a backend holds. -/
def held (files : Files) (id : Text) : Option Text := do
  let h ← e.host id
  let path ← configFile h.server.gameVersion h.kind
  e.loads h.kind (files id path)

/-- The proxy and every backend of the network hold one secret. -/
def Agree (w : World) : Prop :=
  ∀ m ∈ w.rows, (e.host m.serverId).isSome = true → e.held w.files m.serverId = some (e.secret w)

def Consistent (w : World) : Prop := e.secret w ≠ [] ∧ e.Agree w

/-- A change that succeeds leaves the network consistent, and one that fails leaves it agreed. -/
def KeepsSecret (w w' : World) : Prop :=
  (w'.outcome = some .succeeded → e.Consistent w') ∧
    (w'.outcome = some .failed → e.Agree w → e.Agree w')

/-- A stored network that is consistent, or whose proxy has no secret yet. -/
def machine : Machine World Event where
  init w := insertable w.rows = true ∧ (e.Consistent w ∨ e.secret w = [])
  step w ev := some (e.call w ev)

/-! ## The condition -/

/-- The text of the forwarding config after `edits`. -/
def configText (gameVersion before : Option Text) (secret : Text) :
    BackendForwardingKind → Option Text
  | .fabric =>
      some ((Toml.TomlPatcher.parse (before.getD FABRIC_TEMPLATE)).setTopLevel (unitsOf "secret")
        (Toml.TomlValue.string secret)).toText
  | .paper =>
      let velocitySection := if isBefore gameVersion (unitsOf "1.19") then
        [unitsOf "settings", unitsOf "velocity-support"] else [unitsOf "proxies", unitsOf "velocity"]
      setYamlValues e.yaml before [(velocitySection ++ [unitsOf "enabled"], .boolean true),
        (velocitySection ++ [unitsOf "online-mode"], .boolean true),
        (velocitySection ++ [unitsOf "secret"], .string secret)]
  | .spigot => none

/-- The backend loads the secret from the config that is written for it. -/
def loadsBack (files : Files) (secret id : Text) : Bool :=
  match e.host id with
  | none => true
  | some h =>
      match configFile h.server.gameVersion h.kind with
      | none => false
      | some path =>
          (e.configText h.server.gameVersion (files id path) secret h.kind).all fun text =>
            e.loads h.kind (some text) == some secret

/-- The write is one of the backend's forwarding config. -/
def writesConfig (id : Text) (write : Text × FileEdit) : Bool :=
  write.1 == id && (e.host id).any fun h =>
    configFile h.server.gameVersion h.kind == some write.2.path

/-- No write fails between the secret of the proxy and the last backend that needs it. -/
def failsClear (w : World) (ev : Event) (backends : List Member) : Bool :=
  match ev.fault, e.writes w ev backends with
  | some k, some writes =>
      (writes.take k).all (fun x => x.1 != e.proxyId || x.2.path != FORWARDING_SECRET_FILE) ||
        w.rows.all fun m => (e.host m.serverId).isNone ||
          e.held w.files m.serverId == some (e.draftSecret w ev) ||
          (writes.take k).any (e.writesConfig m.serverId)
  | _, _ => true

/-- The condition under which a change keeps the secret. -/
def meets (w : World) (ev : Event) : Bool :=
  match drafted e.panel w.rows ev.change with
  | none => true
  | some backends =>
      let ids := (e.configured w.rows ev.change).map Member.serverId
      (e.secret w != [] || backends.all fun m =>
        ids.contains m.serverId || e.held w.files m.serverId == some (e.draftSecret w ev)) &&
      ids.all (e.loadsBack w.files (e.draftSecret w ev)) &&
      e.failsClear w ev backends

end Estate

/-! ## The edits of a draft -/

section Steps

variable {e : Estate} {w : World}

theorem mem_editOf {path : String} {before : Option Text} {after : Text} {x : FileEdit}
    (h : x ∈ editOf path before after) : x = ⟨path, before, after⟩ := by
  rw [editOf] at h
  split at h
  · cases h
  · exact List.mem_singleton.mp h

theorem bungeecordEdits_path {yaml : Yaml} {files : ServerFiles} {enabled : Bool}
    {edits : List FileEdit} (h : bungeecordEdits yaml files enabled = some edits) :
    ∀ x ∈ edits, x.path = SPIGOT_CONFIG := by
  intro x h_x
  obtain ⟨before, -, h⟩ := Option.bind_eq_some_iff.mp h
  split at h
  · cases h
    cases h_x
  · obtain ⟨after, -, h⟩ := Option.bind_eq_some_iff.mp h
    cases h
    rw [mem_editOf h_x]

theorem forwardingEdits_modern {kind : BackendForwardingKind} {version : Option Text} {secret : Text}
    {files : ServerFiles} {edits : List FileEdit} {path : String}
    (h : forwardingEdits e.yaml files ⟨.modern, secret, version⟩ kind = some edits)
    (h_file : Estate.configFile version kind = some path) :
    ∃ before text rest, files path = some before ∧
      e.configText version before secret kind = some text ∧
      edits = editOf path before text ++ rest ∧ ∀ x ∈ rest, x.path = SPIGOT_CONFIG := by
  cases kind with
  | spigot => cases h_file
  | fabric =>
    cases h_file
    obtain ⟨before, h_before, h⟩ := Option.bind_eq_some_iff.mp h
    cases h
    exact ⟨before, _, [], h_before, rfl, (List.append_nil _).symm, fun x h_x => by cases h_x⟩
  | paper =>
    cases h_file
    obtain ⟨before, h_before, h⟩ := Option.bind_eq_some_iff.mp h
    obtain ⟨velocity, h_velocity, h⟩ := Option.bind_eq_some_iff.mp h
    obtain ⟨bungeecord, h_bungeecord, h⟩ := Option.bind_eq_some_iff.mp h
    cases h
    obtain ⟨text, h_text, rfl⟩ := Option.map_eq_some_iff.mp h_velocity
    exact ⟨before, text, bungeecord, h_before, h_text, rfl, bungeecordEdits_path h_bungeecord⟩

theorem proxyEdits_cases {draft : NetworkDraft} {lib : VelocityLib} {files : ServerFiles}
    {edits : List FileEdit} (h : proxyEdits lib draft files = some edits) :
    ∃ before, files FORWARDING_SECRET_FILE = some before ∧
      (before.map trim = some draft.secret → ∀ x ∈ edits, x.path = VELOCITY_CONFIG) ∧
      (before.map trim ≠ some draft.secret → before = some draft.secret ∨
        ∃ x ∈ edits, x.path = FORWARDING_SECRET_FILE) ∧
      ∀ x ∈ edits, x.path = FORWARDING_SECRET_FILE → x.after = draft.secret := by
  obtain ⟨velocity, -, h⟩ := Option.bind_eq_some_iff.mp h
  obtain ⟨before, h_before, h⟩ := Option.bind_eq_some_iff.mp h
  cases h
  refine ⟨before, h_before, fun h_trim x h_x => ?_, fun h_trim => ?_, fun x h_x h_path => ?_⟩
  · rw [if_pos h_trim, List.append_nil] at h_x
    rw [mem_editOf h_x]
  · rw [if_neg h_trim]
    by_cases h_same : before = some draft.secret
    · exact .inl h_same
    · refine .inr ⟨⟨FORWARDING_SECRET_FILE, before, draft.secret⟩, ?_, rfl⟩
      rw [editOf, editOf, if_neg h_same]
      exact List.mem_append_right _ (List.mem_singleton_self _)
  · obtain h_x | h_x := List.mem_append.mp h_x
    · rw [mem_editOf h_x] at h_path
      exact absurd h_path (show VELOCITY_CONFIG ≠ FORWARDING_SECRET_FILE by decide)
    · split at h_x
      · cases h_x
      · rw [mem_editOf h_x]

theorem writesOf_filter (entries : List ServerEdits) :
    Estate.writesOf (entries.filter fun entry => entry.edits ≠ []) = Estate.writesOf entries := by
  induction entries with
  | nil => rfl
  | cons entry entries ih =>
    rw [List.filter_cons]
    split
    · rw [Estate.writesOf, List.flatMap_cons]
      exact congrArg _ ih
    · rename_i h_nil
      have h_nil : entry.edits = [] := by simpa using h_nil
      rw [ih, Estate.writesOf, Estate.writesOf, List.flatMap_cons, h_nil]
      cases entry.server.serverId with
      | none => rfl
      | some id => rfl

/-- The backend of a member. -/
theorem draftBackend_eq {m : Member} {h : Host} (h_host : e.host m.serverId = some h) :
    ∃ b, e.draftBackend m = some b ∧ b.serverId = some m.serverId ∧
      b.gameVersion = h.server.gameVersion ∧ b.forwarding = h.kind := by
  rw [Estate.draftBackend, h_host]
  exact ⟨_, rfl, rfl, rfl, rfl⟩

theorem configFile_ne {version : Option Text} {kind : BackendForwardingKind} {path : String}
    (h : Estate.configFile version kind = some path) :
    path ≠ SPIGOT_CONFIG ∧ path ≠ SERVER_PROPERTIES := by
  cases kind with
  | spigot => cases h
  | fabric =>
    cases h
    decide
  | paper =>
    cases h
    split <;> decide

/-- What the edits of one backend write into its forwarding config. -/
theorem config_of_backendEdits {draft : NetworkDraft} {b : DraftBackend} {files : Files} {id : Text}
    {edits : List FileEdit} {path : String} (h_mode : draft.mode = .modern)
    (h_id : b.serverId = some id)
    (h : backendEdits e.yaml draft b (Estate.filesOf files b.toDraftServer) = some edits)
    (h_file : Estate.configFile b.gameVersion b.forwarding = some path) :
    ∃ text, e.configText b.gameVersion (files id path) draft.secret b.forwarding = some text ∧
      (∀ x ∈ edits, x.path = path → x.after = text) ∧
      ((∃ x ∈ edits, x.path = path) ∨ files id path = some text) := by
  obtain ⟨forwarding, h_forwarding, h⟩ := Option.bind_eq_some_iff.mp h
  rw [h_mode] at h_forwarding
  obtain ⟨before, text, rest, h_before, h_text, rfl, h_rest⟩ :=
    forwardingEdits_modern h_forwarding h_file
  have h_content : files id path = before := by
    rw [Estate.filesOf, h_id] at h_before
    exact Option.some.inj h_before
  have h_no_id : ¬ b.serverId = none := by simp [h_id]
  rw [if_neg h_no_id] at h
  obtain ⟨properties, -, h⟩ := Option.bind_eq_some_iff.mp h
  cases h
  rw [h_content]
  obtain ⟨h_spigot, h_properties⟩ := configFile_ne h_file
  refine ⟨text, h_text, fun x h_x h_path => ?_, ?_⟩
  · obtain h_x | h_x := List.mem_append.mp h_x
    · rw [mem_editOf h_x] at h_path
      exact absurd h_path.symm h_properties
    · obtain h_x | h_x := List.mem_append.mp h_x
      · rw [mem_editOf h_x]
      · exact absurd ((h_rest x h_x).symm.trans h_path).symm h_spigot
  · by_cases h_same : before = some text
    · exact .inr h_same
    · refine .inl ⟨⟨path, before, text⟩, ?_, rfl⟩
      rw [editOf, editOf, if_neg h_same]
      exact List.mem_append_right _ (List.mem_append_left _ (List.mem_singleton_self _))

/-- What a change writes: the proxy first, then the backends it configures. -/
structure Layout (e : Estate) (files : Files) (secret : Text) (members : List Member)
    (proxy back : List (Text × FileEdit)) : Prop where
  proxyServer : ∀ x ∈ proxy, x.1 = e.proxyId
  secretKept : (files e.proxyId FORWARDING_SECRET_FILE).map trim = some secret →
    ∀ x ∈ proxy, x.2.path ≠ FORWARDING_SECRET_FILE
  secretNew : (files e.proxyId FORWARDING_SECRET_FILE).map trim ≠ some secret →
    files e.proxyId FORWARDING_SECRET_FILE = some secret ∨
      ∃ x ∈ proxy, x.2.path = FORWARDING_SECRET_FILE
  secretText : ∀ x ∈ proxy, x.2.path = FORWARDING_SECRET_FILE → x.2.after = secret
  backServer : ∀ x ∈ back, ∃ m ∈ members, x.1 = m.serverId ∧ (e.host m.serverId).isSome = true
  config : ∀ m ∈ members, ∀ h, e.host m.serverId = some h → ∀ path,
    Estate.configFile h.server.gameVersion h.kind = some path →
    ∃ text, e.configText h.server.gameVersion (files m.serverId path) secret h.kind = some text ∧
      (∀ x ∈ back, x.1 = m.serverId → x.2.path = path → x.2.after = text) ∧
      ((∃ x ∈ back, x.1 = m.serverId ∧ x.2.path = path) ∨ files m.serverId path = some text)

theorem writesOf_cons (server : DraftServer) (edits : List FileEdit) (entries : List ServerEdits) :
    Estate.writesOf (⟨server, edits⟩ :: entries) =
      (match server.serverId with
        | some id => edits.map fun edit => (id, edit)
        | none => []) ++ Estate.writesOf entries := rfl

theorem mem_writesOf {entries : List ServerEdits} {x : Text × FileEdit} :
    x ∈ Estate.writesOf entries ↔
      ∃ entry ∈ entries, entry.server.serverId = some x.1 ∧ x.2 ∈ entry.edits := by
  rw [Estate.writesOf, List.mem_flatMap]
  apply exists_congr
  intro entry
  apply and_congr_right
  intro _
  cases entry.server.serverId with
  | none => simp
  | some id =>
    simp only [List.mem_map, Option.some.injEq]
    constructor
    · rintro ⟨edit, h_edit, rfl⟩
      exact ⟨rfl, h_edit⟩
    · rintro ⟨rfl, h_edit⟩
      exact ⟨x.2, h_edit, rfl⟩

theorem layout {files : Files} {secret : Text} {backends members : List Member}
    {edits : List ServerEdits}
    (h : draftEdits e.lib e.yaml (e.draft backends secret) (members.filterMap e.draftBackend)
      (Estate.filesOf files) = some edits) :
    ∃ proxy back, Estate.writesOf edits = proxy ++ back ∧ Layout e files secret members proxy back := by
  rw [draftEdits, Option.bind_eq_bind, Option.bind_eq_some_iff] at h
  obtain ⟨proxy, h_proxy, h⟩ := h
  rw [Option.bind_eq_bind, Option.bind_eq_some_iff] at h
  obtain ⟨entries, h_entries, h⟩ := h
  cases h
  obtain ⟨before, h_before, h_kept, h_new, h_text⟩ := proxyEdits_cases h_proxy
  have h_before : files e.proxyId FORWARDING_SECRET_FILE = before := Option.some.inj h_before
  -- the backend that an entry is of, and the entry of a backend
  obtain ⟨h_left, h_right⟩ := Fallible.mem_of_mapM_some h_entries
  have h_of_entry : ∀ entry ∈ entries, ∃ m ∈ members, ∃ b, e.draftBackend m = some b ∧
      entry.server = b.toDraftServer ∧ backendEdits e.yaml (e.draft backends secret) b
        (Estate.filesOf files b.toDraftServer) = some entry.edits := by
    intro entry h_entry
    obtain ⟨b, h_b, h_edits⟩ := h_right entry h_entry
    obtain ⟨m, h_m, h_b⟩ := List.mem_filterMap.mp h_b
    obtain ⟨own, h_own, rfl⟩ := Option.map_eq_some_iff.mp h_edits
    exact ⟨m, h_m, b, h_b, rfl, h_own⟩
  have h_entry_of : ∀ m ∈ members, ∀ b, e.draftBackend m = some b → ∃ entry ∈ entries,
      entry.server = b.toDraftServer ∧ backendEdits e.yaml (e.draft backends secret) b
        (Estate.filesOf files b.toDraftServer) = some entry.edits := by
    intro m h_m b h_b
    obtain ⟨entry, h_entry, h_edits⟩ := h_left b (List.mem_filterMap.mpr ⟨m, h_m, h_b⟩)
    obtain ⟨own, h_own, rfl⟩ := Option.map_eq_some_iff.mp h_edits
    exact ⟨_, h_entry, rfl, h_own⟩
  refine ⟨proxy.map fun edit => (e.proxyId, edit), Estate.writesOf entries, ?_, ?_, ?_, ?_, ?_, ?_, ?_⟩
  · rw [writesOf_filter, writesOf_cons]
    rfl
  · intro x h_x
    obtain ⟨edit, -, rfl⟩ := List.mem_map.mp h_x
    rfl
  · rw [h_before]
    intro h_trim x h_x
    obtain ⟨edit, h_edit, rfl⟩ := List.mem_map.mp h_x
    rw [h_kept h_trim edit h_edit]
    decide
  · rw [h_before]
    intro h_trim
    obtain h_same | ⟨x, h_x, h_path⟩ := h_new h_trim
    · exact .inl h_same
    · exact .inr ⟨(e.proxyId, x), List.mem_map_of_mem h_x, h_path⟩
  · intro x h_x h_path
    obtain ⟨edit, h_edit, rfl⟩ := List.mem_map.mp h_x
    exact h_text edit h_edit h_path
  · intro x h_x
    obtain ⟨entry, h_entry, h_id, -⟩ := mem_writesOf.mp h_x
    obtain ⟨m, h_m, b, h_b, h_server, -⟩ := h_of_entry entry h_entry
    obtain ⟨h, h_host, rfl⟩ := Option.map_eq_some_iff.mp h_b
    rw [h_server] at h_id
    exact ⟨m, h_m, (Option.some.inj h_id).symm, by rw [h_host]; rfl⟩
  · intro m h_m h h_host path h_path
    obtain ⟨b, h_b, h_id, h_version, h_kind⟩ := draftBackend_eq h_host
    obtain ⟨entry, h_entry, h_server, h_edits⟩ := h_entry_of m h_m b h_b
    rw [← h_version, ← h_kind] at h_path ⊢
    obtain ⟨text, h_config, h_after, h_done⟩ := config_of_backendEdits rfl h_id h_edits h_path
    refine ⟨text, h_config, fun x h_x h_x_id h_x_path => ?_, h_done.imp_left ?_⟩
    · -- Another entry of the same server has the same text.
      obtain ⟨entry', h_entry', h_id', h_edit'⟩ := mem_writesOf.mp h_x
      obtain ⟨m', h_m', b', h_b', h_server', h_edits'⟩ := h_of_entry entry' h_entry'
      have h_same : m'.serverId = m.serverId := by
        obtain ⟨h', -, rfl⟩ := Option.map_eq_some_iff.mp h_b'
        rw [h_server'] at h_id'
        exact (Option.some.inj h_id').trans h_x_id
      obtain ⟨b₂, h_b₂, h_id₂, h_version₂, h_kind₂⟩ :=
        draftBackend_eq (m := m') (h_same.symm ▸ h_host)
      rw [h_b'] at h_b₂
      cases h_b₂
      rw [h_same] at h_id₂
      rw [h_version, h_kind, ← h_version₂, ← h_kind₂] at h_path h_config
      obtain ⟨text', h_config', h_after', -⟩ :=
        config_of_backendEdits rfl h_id₂ h_edits' h_path
      have h_text' : text' = text := Option.some.inj (h_config'.symm.trans h_config)
      rw [h_after' x.2 h_edit' h_x_path, h_text']
    · rintro ⟨x, h_x, h_x_path⟩
      exact ⟨(m.serverId, x), mem_writesOf.mpr ⟨entry, h_entry, by rw [h_server, h_id], h_x⟩, rfl,
        h_x_path⟩

/-! ## Files after some writes -/

theorem writeAll_concat (files : Files) (writes : List (Text × FileEdit)) (x : Text × FileEdit) :
    Estate.writeAll files (writes ++ [x]) = Estate.writeFile (Estate.writeAll files writes) x := by
  rw [Estate.writeAll, List.foldl_append]
  rfl

theorem writeAll_of_not_mem {files : Files} {writes : List (Text × FileEdit)} {id : Text}
    {path : String} (h : ∀ x ∈ writes, x.1 = id → x.2.path ≠ path) :
    Estate.writeAll files writes id path = files id path := by
  induction writes using List.reverseRecOn with
  | nil => rfl
  | append_singleton writes x ih =>
    have h_x : ¬ (id = x.1 ∧ path = x.2.path) := fun h_eq =>
      h x (List.mem_append_right _ (List.mem_singleton_self x)) h_eq.1.symm h_eq.2.symm
    rw [writeAll_concat, Estate.writeFile, if_neg h_x]
    exact ih fun y h_y => h y (List.mem_append_left _ h_y)

theorem writeAll_of_mem {files : Files} {writes : List (Text × FileEdit)} {id text : Text}
    {path : String} (h_mem : ∃ x ∈ writes, x.1 = id ∧ x.2.path = path)
    (h : ∀ x ∈ writes, x.1 = id → x.2.path = path → x.2.after = text) :
    Estate.writeAll files writes id path = some text := by
  induction writes using List.reverseRecOn with
  | nil =>
    obtain ⟨x, h_x, -⟩ := h_mem
    cases h_x
  | append_singleton writes x ih =>
    rw [writeAll_concat, Estate.writeFile]
    split
    · rename_i h_eq
      exact congrArg some (h x (List.mem_append_right _ (List.mem_singleton_self x))
        h_eq.1.symm h_eq.2.symm)
    · rename_i h_ne
      apply ih _ fun y h_y => h y (List.mem_append_left _ h_y)
      obtain ⟨y, h_y, h_id, h_path⟩ := h_mem
      obtain h_y | h_y := List.mem_append.mp h_y
      · exact ⟨y, h_y, h_id, h_path⟩
      · rw [List.mem_singleton] at h_y
        rw [h_y] at h_id h_path
        exact absurd ⟨h_id.symm, h_path.symm⟩ h_ne

/-! ## Secrets after some writes -/

theorem not_isTrimmed_of_isBareUnit {c : Properties.CodeUnit} (h : Toml.isBareUnit c = true) :
    Properties.isTrimmed c = false := by
  simp only [Toml.isBareUnit, Bool.or_eq_true, Bool.and_eq_true, decide_eq_true_eq, beq_iff_eq,
    UInt16.le_iff_toNat_le, ← UInt16.toNat_inj] at h
  simp only [Properties.isTrimmed, Bool.or_eq_false_iff, Bool.and_eq_false_iff, decide_eq_false_iff_not,
    beq_eq_false_iff_ne]
  simp only [UInt16.reduceToNat] at h
  omega

theorem GeneratedSecret.trim_eq (g : GeneratedSecret) : trim g.text = g.text := by
  have h_kept : ∀ text : Text, (∀ c ∈ text, Toml.isBareUnit c = true) →
      text.dropWhile Properties.isTrimmed = text := by
    intro text h_text
    cases text with
    | nil => rfl
    | cons c text =>
      have h_c := not_isTrimmed_of_isBareUnit (h_text c List.mem_cons_self)
      rw [List.dropWhile_cons, h_c]
      rfl
  rw [trim, h_kept _ g.plain, h_kept _ fun c h_c => g.plain c (List.mem_reverse.mp h_c),
    List.reverse_reverse]

/-! ## Secrets after some writes of a change -/

section Held

variable {files : Files} {secret : Text} {members : List Member}
  {proxy back written : List (Text × FileEdit)} {id : Text}

theorem ne_proxyId {h : Host} (h_host : e.host id = some h) : id ≠ e.proxyId := by
  rintro rfl
  rw [e.proxy_host] at h_host
  cases h_host

/-- A config that is not written stays what it was. -/
theorem held_unwritten (h : ∀ x ∈ written, e.writesConfig id x = false) :
    e.held (Estate.writeAll files written) id = e.held files id := by
  rw [Estate.held, Estate.held]
  cases h_host : e.host id with
  | none => rfl
  | some host =>
    cases h_file : Estate.configFile host.server.gameVersion host.kind with
    | none => simp [h_file]
    | some path =>
      have h_same : Estate.writeAll files written id path = files id path := by
        apply writeAll_of_not_mem
        rintro x h_x rfl h_path
        have h_not := h x h_x
        rw [Estate.writesConfig, h_host, Option.any_some, h_file, h_path] at h_not
        simp at h_not
      simp [h_file, h_same]

/-- What a backend loads back of a config that was written for it. -/
theorem loads_eq {h : Host} (h_host : e.host id = some h) (h_back : e.loadsBack files secret id = true) :
    ∃ path, Estate.configFile h.server.gameVersion h.kind = some path ∧
      ∀ text, e.configText h.server.gameVersion (files id path) secret h.kind = some text →
        e.loads h.kind (some text) = some secret := by
  rw [Estate.loadsBack, h_host] at h_back
  cases h_file : Estate.configFile h.server.gameVersion h.kind with
  | none => simp [h_file] at h_back
  | some path =>
    simp only [h_file] at h_back
    refine ⟨path, rfl, fun text h_text => ?_⟩
    rw [h_text] at h_back
    simpa using h_back

/-- Of the writes some are done: a backend that is written to holds the secret. -/
theorem Layout.held_written (h : Layout e files secret members proxy back)
    (h_written_sub : ∀ x ∈ written, x ∈ proxy ++ back)
    (h_backs : ∀ m ∈ members, e.loadsBack files secret m.serverId = true)
    (h_written : ∃ x ∈ written, e.writesConfig id x = true) :
    e.held (Estate.writeAll files written) id = some secret := by
  obtain ⟨x, h_x, h_config⟩ := h_written
  rw [Estate.writesConfig, Bool.and_eq_true, beq_iff_eq, Option.any_eq_true] at h_config
  obtain ⟨rfl, host, h_host, h_file⟩ := h_config
  rw [beq_iff_eq] at h_file
  -- no write to a backend is one of the proxy's
  have h_from_back : ∀ y ∈ written, y.1 = x.1 → y ∈ back := by
    intro y h_y h_id
    obtain h_y | h_y := List.mem_append.mp (h_written_sub y h_y)
    · exact absurd ((h_id.symm.trans (h.proxyServer y h_y))) (ne_proxyId h_host)
    · exact h_y
  obtain ⟨m, h_m, h_id, -⟩ := h.backServer x (h_from_back x h_x rfl)
  have h_host' : e.host m.serverId = some host := h_id ▸ h_host
  obtain ⟨text, h_text, h_after, -⟩ := h.config m h_m host h_host' x.2.path h_file
  obtain ⟨path, h_path, h_loads⟩ := loads_eq h_host' (h_backs m h_m)
  rw [h_file] at h_path
  cases h_path
  have h_content : Estate.writeAll files written x.1 x.2.path = some text := by
    apply writeAll_of_mem ⟨x, h_x, rfl, rfl⟩
    intro y h_y h_y_id h_y_path
    exact h_after y (h_from_back y h_y h_y_id) (h_y_id.trans h_id) h_y_path
  rw [Estate.held, h_host]
  simp [h_file, h_content, h_loads text h_text]

/-- All writes are done: a backend that is configured holds the secret. -/
theorem Layout.held_configured (h : Layout e files secret members proxy back)
    (h_backs : ∀ m ∈ members, e.loadsBack files secret m.serverId = true) {m : Member}
    (h_m : m ∈ members) (h_hosted : (e.host m.serverId).isSome = true) :
    e.held (Estate.writeAll files (proxy ++ back)) m.serverId = some secret := by
  by_cases h_written : ∃ x ∈ proxy ++ back, e.writesConfig m.serverId x = true
  · exact h.held_written (fun x h_x => h_x) h_backs h_written
  · obtain ⟨host, h_host⟩ := Option.isSome_iff_exists.mp h_hosted
    obtain ⟨path, h_file, h_loads⟩ := loads_eq h_host (h_backs m h_m)
    obtain ⟨text, h_text, -, h_done⟩ := h.config m h_m host h_host path h_file
    obtain ⟨x, h_x, h_id, h_path⟩ | h_content := h_done
    · refine absurd ⟨x, List.mem_append_right _ h_x, ?_⟩ h_written
      rw [Estate.writesConfig, h_id, h_host, Option.any_some, h_file, h_path]
      simp
    · rw [held_unwritten fun x h_x => by
        by_contra h_not
        exact h_written ⟨x, h_x, by simpa using h_not⟩]
      rw [Estate.held, h_host]
      simp [h_file, h_content, h_loads text h_text]

/-- A backend that is not configured stays as it is. -/
theorem Layout.not_writesConfig (h : Layout e files secret members proxy back)
    (h_hosted : (e.host id).isSome = true) (h_id : id ∉ members.map Member.serverId) :
    ∀ x ∈ proxy ++ back, e.writesConfig id x = false := by
  intro x h_x
  obtain ⟨host, h_host⟩ := Option.isSome_iff_exists.mp h_hosted
  have h_ne : x.1 ≠ id := by
    rintro rfl
    obtain h_x | h_x := List.mem_append.mp h_x
    · exact ne_proxyId h_host (h.proxyServer x h_x)
    · obtain ⟨m, h_m, h_eq, -⟩ := h.backServer x h_x
      exact h_id (h_eq ▸ List.mem_map_of_mem h_m)
  simp [Estate.writesConfig, h_ne]

theorem Layout.not_writesConfig_proxy (h : Layout e files secret members proxy back)
    (h_hosted : (e.host id).isSome = true) : ∀ x ∈ proxy, e.writesConfig id x = false := by
  intro x h_x
  obtain ⟨host, h_host⟩ := Option.isSome_iff_exists.mp h_hosted
  have h_ne : x.1 ≠ id := by
    rintro rfl
    exact ne_proxyId h_host (h.proxyServer x h_x)
  simp [Estate.writesConfig, h_ne]

end Held

/-! ## The secret of the proxy -/

section Proxy

variable {secret : Text} {members : List Member} {proxy back written : List (Text × FileEdit)}
  {w' : World}

theorem secret_unwritten
    (h : ∀ x ∈ written, x.1 = e.proxyId → x.2.path ≠ FORWARDING_SECRET_FILE)
    (h_files : w'.files = Estate.writeAll w.files written) : e.secret w' = e.secret w := by
  have h_same : Estate.writeAll w.files written e.proxyId FORWARDING_SECRET_FILE =
      w.files e.proxyId FORWARDING_SECRET_FILE :=
    writeAll_of_not_mem h
  rw [Estate.secret, h_files, h_same, Estate.secret]

/-- The secret is written, or it was there. -/
theorem Layout.secret_written (h : Layout e w.files secret members proxy back)
    (h_sub : ∀ x ∈ written, x ∈ proxy ++ back) (h_trim : trim secret = secret)
    (h_written : ∃ x ∈ proxy, x ∈ written ∧ x.2.path = FORWARDING_SECRET_FILE)
    (h_files : w'.files = Estate.writeAll w.files written) : e.secret w' = secret := by
  obtain ⟨x, h_proxy, h_x, h_path⟩ := h_written
  have h_content : Estate.writeAll w.files written e.proxyId FORWARDING_SECRET_FILE =
      some secret := by
    apply writeAll_of_mem ⟨x, h_x, h.proxyServer x h_proxy, h_path⟩
    intro y h_y h_id h_y_path
    obtain h_y | h_y := List.mem_append.mp (h_sub y h_y)
    · exact h.secretText y h_y h_y_path
    · obtain ⟨m, -, h_m, h_hosted⟩ := h.backServer y h_y
      rw [← h_m, h_id, e.proxy_host] at h_hosted
      cases h_hosted
  rw [Estate.secret, h_files, h_content, Option.map_some, Option.getD_some, h_trim]

theorem secret_of_map {text : Text}
    (h : (w.files e.proxyId FORWARDING_SECRET_FILE).map trim = some text) : e.secret w = text := by
  rw [Estate.secret, h, Option.getD_some]

theorem map_of_secret (h : e.secret w ≠ []) :
    (w.files e.proxyId FORWARDING_SECRET_FILE).map trim = some (e.secret w) := by
  cases h_file : (w.files e.proxyId FORWARDING_SECRET_FILE).map trim with
  | none => exact absurd (by rw [Estate.secret, h_file]; rfl) h
  | some text => rw [secret_of_map h_file]

/-- The secret of a draft is there already, or is one that trimming leaves. -/
theorem draftSecret_cases (e : Estate) (w : World) (ev : Event) :
    e.draftSecret w ev ≠ [] ∧
      ((w.files e.proxyId FORWARDING_SECRET_FILE).map trim = some (e.draftSecret w ev) ∨
        trim (e.draftSecret w ev) = e.draftSecret w ev) := by
  have h_draft : e.draftSecret w ev = ev.rotated.text ∨ e.draftSecret w ev = ev.fresh.text ∨
      (e.secret w ≠ [] ∧ e.draftSecret w ev = e.secret w) := by
    rw [Estate.draftSecret]
    split
    · exact .inl rfl
    · split
      · exact .inr (.inl rfl)
      · rename_i h_secret
        exact .inr (.inr ⟨h_secret, rfl⟩)
  obtain h_draft | h_draft | ⟨h_secret, h_draft⟩ := h_draft
  · rw [h_draft]
    exact ⟨ev.rotated.nonempty, .inr ev.rotated.trim_eq⟩
  · rw [h_draft]
    exact ⟨ev.fresh.nonempty, .inr ev.fresh.trim_eq⟩
  · rw [h_draft]
    exact ⟨h_secret, .inl (map_of_secret h_secret)⟩

theorem Layout.secret_complete {ev : Event}
    (h : Layout e w.files (e.draftSecret w ev) members proxy back)
    (h_files : w'.files = Estate.writeAll w.files (proxy ++ back)) :
    e.secret w' = e.draftSecret w ev := by
  by_cases h_map : (w.files e.proxyId FORWARDING_SECRET_FILE).map trim = some (e.draftSecret w ev)
  · rw [← secret_of_map h_map]
    have h_proxy : Estate.writeAll w.files (proxy ++ back) e.proxyId FORWARDING_SECRET_FILE =
        w.files e.proxyId FORWARDING_SECRET_FILE := by
      apply writeAll_of_not_mem
      intro x h_x h_id
      obtain h_x | h_x := List.mem_append.mp h_x
      · exact h.secretKept h_map x h_x
      · obtain ⟨m, -, h_m, h_hosted⟩ := h.backServer x h_x
        rw [← h_m, h_id, e.proxy_host] at h_hosted
        cases h_hosted
    rw [Estate.secret, h_files, h_proxy, Estate.secret]
  · have h_trim := (draftSecret_cases e w ev).2.resolve_left h_map
    obtain h_same | ⟨x, h_x, h_path⟩ := h.secretNew h_map
    · rw [h_same, Option.map_some, h_trim] at h_map
      exact absurd rfl h_map
    · exact h.secret_written (fun x h_x => h_x) h_trim
        ⟨x, h_x, List.mem_append_left _ h_x, h_path⟩ h_files

end Proxy

/-! ## One change -/

section Change

variable {ev : Event} {backends : List Member}

/-- A network that is consistent, or whose proxy has no secret. -/
def Estate.Steady (e : Estate) (w : World) : Prop :=
  insertable w.rows = true ∧ (e.Consistent w ∨ e.secret w = [])

theorem mem_rows_of_mem_draftOf {rows : List Member} {m : Member}
    (h : m ∈ draftOf e.panel rows) : m ∈ rows :=
  (List.perm_insertionSort _ rows).mem_iff.mp (List.mem_of_mem_filter h)

/-- A backend of a draft is configured, or is one of the network's already. -/
theorem configured_or_mem {rows : List Member}
    (h : drafted e.panel rows ev.change = some backends) {m : Member} (h_m : m ∈ backends) :
    m.serverId ∈ (e.configured rows ev.change).map Member.serverId ∨
      (∃ m' ∈ rows, m'.serverId = m.serverId) ∧ ev.change ≠ .rotateSecret := by
  have h_of_key : ∀ {rows' : List Member}, m.key ∈ (draftOf e.panel rows').map Member.key →
      ∃ m' ∈ rows', m'.serverId = m.serverId := by
    intro rows' h_key
    obtain ⟨m', h_m', h_eq⟩ := List.mem_map.mp h_key
    exact ⟨m', mem_rows_of_mem_draftOf h_m', congrArg Prod.fst h_eq⟩
  cases h_change : ev.change with
  | addMember s =>
    rw [h_change] at h
    cases h
    obtain h_m | h_m := List.mem_append.mp h_m
    · exact .inr ⟨h_of_key (List.mem_map_of_mem h_m), by simp⟩
    · exact .inl (List.mem_map_of_mem h_m)
  | removeMember s =>
    rw [h_change] at h
    cases h
    have h_key := List.mem_map_of_mem (f := Member.key) h_m
    rw [key_compactOrder] at h_key
    obtain ⟨m', h_m', h_eq⟩ := h_of_key h_key
    exact .inr ⟨⟨m', List.mem_of_mem_filter h_m', h_eq⟩, by simp⟩
  | setOrder order =>
    rw [h_change, drafted] at h
    split at h
    · cases h
    · cases h
      obtain ⟨m', h_m', rfl⟩ := List.mem_map.mp h_m
      exact .inr ⟨⟨m', mem_rows_of_mem_draftOf h_m', rfl⟩, by simp⟩
  | rotateSecret =>
    rw [h_change] at h
    cases h
    exact .inl (List.mem_map_of_mem h_m)

/-- What the condition says of a draft. -/
structure Met (e : Estate) (w : World) (ev : Event) (backends : List Member) : Prop where
  stays : e.secret w ≠ [] ∨ ∀ m ∈ backends,
    m.serverId ∈ (e.configured w.rows ev.change).map Member.serverId ∨
      e.held w.files m.serverId = some (e.draftSecret w ev)
  backs : ∀ m ∈ e.configured w.rows ev.change,
    e.loadsBack w.files (e.draftSecret w ev) m.serverId = true
  clear : e.failsClear w ev backends = true

theorem met_of_meets (h_drafted : drafted e.panel w.rows ev.change = some backends)
    (h : e.meets w ev = true) : Met e w ev backends := by
  simp only [Estate.meets, h_drafted, Bool.and_eq_true, Bool.or_eq_true, bne_iff_ne,
    List.all_eq_true, List.contains_iff_mem, beq_iff_eq, List.mem_map] at h
  obtain ⟨⟨h_stays, h_backs⟩, h_clear⟩ := h
  refine ⟨h_stays.imp_right fun h m h_m => ?_, fun m h_m => h_backs _ ⟨m, h_m, rfl⟩, h_clear⟩
  exact (h m h_m).imp_left List.mem_map.mpr

/-- All files are written. -/
theorem Estate.Steady.consistent_of_complete {proxy back : List (Text × FileEdit)}
    (h_steady : e.Steady w) (w' : World) (h_met : Met e w ev backends) (h_drafted : drafted e.panel w.rows ev.change = some backends)
    (h_layout : Layout e w.files (e.draftSecret w ev) (e.configured w.rows ev.change) proxy back)
    (h_files : w'.files = Estate.writeAll w.files (proxy ++ back)) (h_rows : w'.rows = backends) :
    e.Consistent w' := by
  have h_secret := h_layout.secret_complete h_files
  refine ⟨h_secret ▸ (draftSecret_cases e w ev).1, fun m h_m h_hosted => ?_⟩
  rw [h_rows] at h_m
  rw [h_secret, h_files]
  by_cases h_id : m.serverId ∈ (e.configured w.rows ev.change).map Member.serverId
  · obtain ⟨m', h_m', h_eq⟩ := List.mem_map.mp h_id
    rw [← h_eq] at h_hosted ⊢
    exact h_layout.held_configured h_met.backs h_m' h_hosted
  · rw [held_unwritten (h_layout.not_writesConfig h_hosted h_id)]
    -- it stays: it holds the proxy's secret, which the draft keeps
    obtain h_stays | h_stays := h_met.stays
    · obtain ⟨⟨m', h_m', h_eq⟩, h_change⟩ := (configured_or_mem h_drafted h_m).resolve_left h_id
      have h_agree := h_steady.2.resolve_right h_stays
      have h_draft : e.draftSecret w ev = e.secret w := by
        rw [Estate.draftSecret]
        split
        · rename_i h_rotate
          exact absurd h_rotate h_change
        · rw [if_neg h_stays]
      rw [h_draft, ← h_eq]
      exact h_agree.2 m' h_m' (h_eq ▸ h_hosted)
    · exact (h_stays m h_m).resolve_left h_id

/-- Some of the writes are done, up to one that fails. -/
theorem Estate.Steady.of_prefix {proxy back : List (Text × FileEdit)} {k : Nat}
    (h_steady : e.Steady w) (w' : World) (h_met : Met e w ev backends)
    (h_layout : Layout e w.files (e.draftSecret w ev) (e.configured w.rows ev.change) proxy back)
    (h_writes : e.writes w ev backends = some (proxy ++ back)) (h_fault : ev.fault = some k)
    (h_files : w'.files = Estate.writeAll w.files ((proxy ++ back).take k))
    (h_rows : w'.rows = w.rows) :
    e.Steady w' ∧ (e.Agree w → e.Agree w') := by
  have h_sub : ∀ x ∈ (proxy ++ back).take k, x ∈ proxy ++ back := fun x h_x =>
    List.mem_of_mem_take h_x
  have h_insertable : insertable w'.rows = true := h_rows ▸ h_steady.1
  -- Each backend holds what it held, or the secret of the draft.
  have h_held : ∀ id, (∃ x ∈ (proxy ++ back).take k, e.writesConfig id x = true) →
      e.held w'.files id = some (e.draftSecret w ev) := fun id h_id => by
    rw [h_files]
    exact h_layout.held_written h_sub h_met.backs h_id
  have h_same : ∀ id, ¬ (∃ x ∈ (proxy ++ back).take k, e.writesConfig id x = true) →
      e.held w'.files id = e.held w.files id := fun id h_id => by
    rw [h_files]
    apply held_unwritten
    intro x h_x
    by_contra h_not
    exact h_id ⟨x, h_x, by simpa using h_not⟩
  have h_clear := h_met.clear
  simp only [Estate.failsClear, h_fault, h_writes, Bool.or_eq_true, List.all_eq_true,
    bne_iff_ne, List.any_eq_true, beq_iff_eq, Option.isNone_iff_eq_none] at h_clear
  by_cases h_written : ∃ x ∈ (proxy ++ back).take k,
      x.1 = e.proxyId ∧ x.2.path = FORWARDING_SECRET_FILE
  · -- The proxy has the secret of the draft already, and every backend that is a member too.
    obtain ⟨x, h_x, h_id, h_path⟩ := h_written
    have h_all := h_clear.resolve_left fun h_none =>
      (h_none x h_x).elim (fun h_ne => h_ne h_id) fun h_ne => h_ne h_path
    have h_proxy : x ∈ proxy := by
      refine (List.mem_append.mp (h_sub x h_x)).resolve_right fun h_back => ?_
      obtain ⟨m, -, h_m, h_hosted⟩ := h_layout.backServer x h_back
      rw [← h_m, h_id, e.proxy_host] at h_hosted
      cases h_hosted
    have h_map : (w.files e.proxyId FORWARDING_SECRET_FILE).map trim ≠
        some (e.draftSecret w ev) := fun h_map => h_layout.secretKept h_map x h_proxy h_path
    have h_trim := (draftSecret_cases e w ev).2.resolve_left h_map
    have h_secret : e.secret w' = e.draftSecret w ev :=
      h_layout.secret_written h_sub h_trim ⟨x, h_proxy, h_x, h_path⟩ h_files
    have h_agree : e.Agree w' := by
      intro m h_m h_hosted
      rw [h_rows] at h_m
      rw [h_secret]
      by_cases h_config : ∃ x ∈ (proxy ++ back).take k, e.writesConfig m.serverId x = true
      · exact h_held _ h_config
      · rw [h_same _ h_config]
        obtain (h_none | h_holds) | h_config' := h_all m h_m
        · rw [h_none] at h_hosted
          cases h_hosted
        · exact h_holds
        · exact absurd h_config' h_config
    exact ⟨⟨h_insertable, .inl ⟨h_secret ▸ (draftSecret_cases e w ev).1, h_agree⟩⟩, fun _ => h_agree⟩
  · have h_none : ∀ x ∈ (proxy ++ back).take k, x.1 = e.proxyId →
        x.2.path ≠ FORWARDING_SECRET_FILE := fun x h_x h_id h_path =>
      h_written ⟨x, h_x, h_id, h_path⟩
    have h_secret : e.secret w' = e.secret w := secret_unwritten h_none h_files
    by_cases h_map :
        (w.files e.proxyId FORWARDING_SECRET_FILE).map trim = some (e.draftSecret w ev)
    · -- The draft has the proxy's secret, so it does not matter what was written.
      have h_draft := secret_of_map h_map
      have h_agree := h_steady.2.resolve_right
        (h_draft ▸ (draftSecret_cases e w ev).1)
      have h_agree' : e.Agree w' := by
        intro m h_m h_hosted
        rw [h_rows] at h_m
        by_cases h_id : ∃ x ∈ (proxy ++ back).take k, e.writesConfig m.serverId x = true
        · rw [h_held _ h_id, h_secret, h_draft]
        · rw [h_same _ h_id, h_secret]
          exact h_agree.2 m h_m h_hosted
      exact ⟨⟨h_insertable, .inl ⟨h_secret ▸ h_agree.1, h_agree'⟩⟩, fun _ => h_agree'⟩
    · -- Only files of the proxy are written, before its secret.
      have h_trim := (draftSecret_cases e w ev).2.resolve_left h_map
      have h_proxy : ∃ x ∈ proxy, x.2.path = FORWARDING_SECRET_FILE := by
        refine (h_layout.secretNew h_map).resolve_left fun h_was => ?_
        rw [h_was, Option.map_some, h_trim] at h_map
        exact h_map rfl
      obtain ⟨y, h_y, h_y_path⟩ := h_proxy
      have h_short : k ≤ proxy.length := by
        by_contra h_long
        have h_mem : y ∈ (proxy ++ back).take k := by
          rw [List.take_append]
          apply List.mem_append_left
          rw [List.take_of_length_le (by omega)]
          exact h_y
        exact h_none y h_mem (h_layout.proxyServer y h_y) h_y_path
      have h_take : ∀ x ∈ (proxy ++ back).take k, x ∈ proxy := by
        intro x h_x
        rw [List.take_append_of_le_length h_short] at h_x
        exact List.mem_of_mem_take h_x
      have h_agree : e.Agree w → e.Agree w' := by
        intro h m h_m h_hosted
        rw [h_rows] at h_m
        rw [h_same m.serverId, h_secret]
        · exact h m h_m h_hosted
        · rintro ⟨x, h_x, h_config⟩
          rw [h_layout.not_writesConfig_proxy h_hosted x (h_take x h_x)] at h_config
          cases h_config
      refine ⟨⟨h_insertable, h_steady.2.imp (fun h => ?_) fun h => ?_⟩, h_agree⟩
      · exact ⟨h_secret ▸ h.1, h_agree h.2⟩
      · rw [h_secret, h]

theorem Estate.Steady.call (h : e.Steady w) (h_meets : e.meets w ev = true) :
    e.Steady (e.call w ev) ∧ e.KeepsSecret w (e.call w ev) := by
  have h_still : ∀ outcome, outcome ≠ some Outcome.succeeded →
      e.Steady { w with outcome := outcome } ∧ e.KeepsSecret w { w with outcome := outcome } :=
    fun outcome h_ne => ⟨h, fun h_eq => absurd h_eq h_ne, fun _ h_agree => h_agree⟩
  rw [Estate.call]
  split
  · rename_i h_accepts
    split
    · rename_i backends h_drafted
      have h_met := met_of_meets h_drafted h_meets
      rw [Estate.commit]
      split
      · exact h_still _ (by simp)
      · rename_i writes h_writes
        obtain ⟨edits, h_edits, rfl⟩ := Option.map_eq_some_iff.mp h_writes
        obtain ⟨proxy, back, h_split, h_layout⟩ := layout h_edits
        rw [h_split] at h_writes ⊢
        split
        · rename_i k h_fault
          have h_k := (Option.filter_eq_some_iff.mp h_fault).1
          obtain ⟨h_steady, h_agree⟩ := h.of_prefix
            { w with files := Estate.writeAll w.files ((proxy ++ back).take k), outcome := some .failed }
            h_met h_layout h_writes h_k rfl rfl
          refine ⟨h_steady, ⟨fun h_eq => ?_, fun _ => h_agree⟩⟩
          cases h_eq
        · have h_free : ∀ s, ev.change = .addMember s → s ∉ w.rows.map Member.serverId := by
            intro s h_change h_mem
            rw [h_change, Estate.accepts, Bool.and_eq_true, List.all_eq_true] at h_accepts
            obtain ⟨m, h_m, rfl⟩ := List.mem_map.mp h_mem
            simpa using h_accepts.2 m h_m
          have h_insertable := insertable_drafted h.1 h_free h_drafted
          rw [if_pos h_insertable]
          have h_consistent := h.consistent_of_complete
            ⟨Estate.writeAll w.files (proxy ++ back), backends, some .succeeded⟩
            h_met h_drafted h_layout rfl rfl
          refine ⟨⟨h_insertable, .inl h_consistent⟩, ⟨fun _ => h_consistent, fun h_eq => ?_⟩⟩
          cases h_eq
    · exact h_still _ (by simp)
  · exact h_still _ (by simp)

end Change

end Steps

/-! ## Every change -/

/-- In the runs whose changes meet the condition, the network keeps one secret. -/
theorem keepsSecret_of_reachableUnder {e : Estate} {w w' : World} {ev : Event}
    (h : e.machine.ReachableUnder (fun w ev => e.meets w ev = true) w)
    (h_meets : e.meets w ev = true) (h_step : e.machine.step w ev = some w') :
    e.KeepsSecret w w' := by
  have h_steady : e.Steady w := by
    refine h.invariant (P := e.Steady) (fun w h_init => h_init) ?_
    intro w ev w' h_steady h_meets h_step
    cases h_step
    exact (h_steady.call h_meets).1
  cases h_step
  exact (h_steady.call h_meets).2

/-- Where a Fabric config has the secret. -/
def SECRET_LINE : Text := unitsOf "secret = \x22"

/-- The last line that sets a secret. -/
def loadSecret (text : Text) : Option Text :=
  ((Properties.splitLines text).reverse.find? fun line => SECRET_LINE.isPrefixOf line).map
    fun line => (line.drop SECRET_LINE.length).dropLast

def lobbyHost : Host where
  server := ⟨none, unitsOf "Lobby", none, 25566, false⟩
  kind := .fabric

/-- A proxy, and a lobby that runs on Fabric. -/
def lobbyEstate : Estate where
  lib := emptyLib
  yaml := plainYaml
  fold text := text
  proxyId := unitsOf "proxy"
  proxy := (bareDraft []).proxy
  host id := if id = unitsOf "lobby" then some lobbyHost else none
  loads _ text := text.bind loadSecret
  proxy_host := by decide

def generated (text : String)
    (h : unitsOf text ≠ [] ∧ (unitsOf text).all Toml.isBareUnit = true) : GeneratedSecret :=
  ⟨unitsOf text, h.1, List.all_eq_true.mp h.2⟩

def changeOf (change : Change) : Event :=
  ⟨change, generated "k7Qp" (by decide), generated "z3Rt" (by decide), none⟩

/-- A network of a proxy alone that was not started yet. -/
def unstarted : World := { files := fun _ _ => none, rows := [] }

/-- The lobby is added, and then it is put first. -/
theorem keepsSecret_addMember_setOrder :
    lobbyEstate.KeepsSecret
      (lobbyEstate.call unstarted (changeOf (.addMember (unitsOf "lobby"))))
      (lobbyEstate.call (lobbyEstate.call unstarted (changeOf (.addMember (unitsOf "lobby"))))
        (changeOf (.setOrder [unitsOf "lobby"]))) := by
  have h_init : lobbyEstate.machine.init unstarted := ⟨by decide, .inr rfl⟩
  have h_add : lobbyEstate.meets unstarted (changeOf (.addMember (unitsOf "lobby"))) = true := by
    decide +kernel
  have h_order : lobbyEstate.meets
      (lobbyEstate.call unstarted (changeOf (.addMember (unitsOf "lobby"))))
      (changeOf (.setOrder [unitsOf "lobby"])) = true := by
    decide +kernel
  exact keepsSecret_of_reachableUnder (.step (.init h_init) h_add rfl) h_order rfl

/-- The proxy has lost its secret file, and the lobby still has the old secret. -/
def forgotten : World where
  files id path :=
    if id = unitsOf "lobby" ∧ path = FABRIC_PROXY_CONFIG then
      some (unitsOf "secret = \x22old\x22\n")
    else none
  rows := [⟨unitsOf "lobby", unitsOf "lobby", some 0⟩]

/-- A new order gives the proxy a fresh secret and leaves the lobby with its own. -/
theorem setOrder_breaks_secret : ¬ ∀ (e : Estate) (w w' : World) (ev : Event),
    e.machine.Reachable w → e.machine.step w ev = some w' → e.KeepsSecret w w' := by
  intro h
  have h_init : lobbyEstate.machine.init forgotten := ⟨by decide, .inr rfl⟩
  have h_keeps := h lobbyEstate forgotten _ (changeOf (.setOrder [unitsOf "lobby"]))
    (.init h_init) rfl
  have h_succeeded : (lobbyEstate.call forgotten
      (changeOf (.setOrder [unitsOf "lobby"]))).outcome = some .succeeded := by
    decide +kernel
  have h_rows : (⟨unitsOf "lobby", unitsOf "lobby", some 0⟩ : Member) ∈ (lobbyEstate.call forgotten
      (changeOf (.setOrder [unitsOf "lobby"]))).rows := by
    decide +kernel
  have h_same := (h_keeps.1 h_succeeded).2 _ h_rows (by decide)
  exact absurd h_same (by decide +kernel)

end Kubek.Networks.SharedSecret
