/-
  Kubek.Networks.VelocityConfig

  What the panel writes into `velocity.toml` (`config/velocity-configurator.ts`,
  `config/velocity-settings.ts`).

  `Bun.TOML.parse` and the default configs of the Velocity jars are parameters.
-/

import Kubek.Networks.TomlPatcher
import Kubek.Networks.Draft

namespace Kubek.Networks

open Properties (Text unitsOf trim)
open Toml (TomlPatcher)

/-! ## Versions -/

/-- `/\d+/`: the number at the beginning of a text, and what follows. -/
def leadingNumber (text : Text) : Option (Nat × Text) :=
  let isDigit : Properties.CodeUnit → Bool := fun c => 0x30 ≤ c && c ≤ 0x39
  match text.takeWhile isDigit with
  | [] => none
  | digits =>
      some (digits.foldl (fun n c => 10 * n + (c.toNat - 0x30)) 0, text.dropWhile isDigit)

/-- `/\.\d+/`. -/
def dottedNumber (text : Text) : Option (Nat × Text) :=
  if text.head? = some Toml.DOT then leadingNumber text.tail else none

/-- `parts`. -/
def versionParts (version : Text) : Option (List Nat) := do
  let major ← leadingNumber (trim version)
  let minor ← dottedNumber major.2
  let patch := match dottedNumber minor.2 with
    | some found => found.1
    | none => 0
  return [major.1, minor.1, patch]

/-- True when a known release is older than the given one, unknown versions count as new. -/
def isBefore (version : Option Text) (other : Text) : Bool :=
  match version.bind versionParts, versionParts other with
  | some a, some b => decide (a < b)
  | _, _ => false

/-! ## Settings -/

inductive SettingType
  | string
  | number
  | boolean
  deriving DecidableEq

structure SettingSpec where
  /-- None for a top level key. -/
  table : Option Text
  key : Text
  type : SettingType

/-- A value of `VelocitySettings` as the request brings it. -/
inductive SettingValue
  | string (text : Text)
  | integer (n : Int)
  /-- A number that is not whole. -/
  | fraction
  | boolean (value : Bool)
  deriving DecidableEq

section Settings

def topSpec (key : String) (type : SettingType) : SettingSpec := ⟨none, unitsOf key, type⟩

def advancedSpec (key : String) (type : SettingType) : SettingSpec :=
  ⟨some (unitsOf "advanced"), unitsOf key, type⟩

/-- Where each setting lives in `velocity.toml`, same in 3.x and 4.x. -/
def VELOCITY_SETTINGS : List (String × SettingSpec) :=
  [("motd", topSpec "motd" .string),
    ("showMaxPlayers", topSpec "show-max-players" .number),
    ("onlineMode", topSpec "online-mode" .boolean),
    ("forceKeyAuthentication", topSpec "force-key-authentication" .boolean),
    ("preventClientProxyConnections", topSpec "prevent-client-proxy-connections" .boolean),
    ("kickExistingPlayers", topSpec "kick-existing-players" .boolean),
    ("announceForge", topSpec "announce-forge" .boolean),
    ("compressionThreshold", advancedSpec "compression-threshold" .number),
    ("loginRatelimit", advancedSpec "login-ratelimit" .number),
    ("connectionTimeout", advancedSpec "connection-timeout" .number),
    ("readTimeout", advancedSpec "read-timeout" .number),
    ("haproxyProtocol", advancedSpec "haproxy-protocol" .boolean),
    ("failoverOnUnexpectedServerDisconnect",
      advancedSpec "failover-on-unexpected-server-disconnect" .boolean),
    ("logPlayerConnections", advancedSpec "log-player-connections" .boolean),
    ("acceptsTransfers", advancedSpec "accepts-transfers" .boolean),
    ("queryEnabled", ⟨some (unitsOf "query"), unitsOf "enabled", .boolean⟩)]

/-- `literal`; none for a value of the wrong type. -/
def settingLiteral (spec : SettingSpec) : SettingValue → Option Text
  | .string text => if spec.type = .string then some (Toml.TomlValue.string text) else none
  | .boolean value => if spec.type = .boolean then some (Toml.TomlValue.bool value) else none
  | .integer n => if spec.type = .number then some (unitsOf (toString n)) else none
  | .fraction => none

def applySetting (patcher : TomlPatcher) (spec : SettingSpec) (value : SettingValue) : TomlPatcher :=
  match settingLiteral spec value, spec.table with
  | none, _ => patcher
  | some literal, some table => patcher.setInTable table spec.key literal
  | some literal, none => patcher.setTopLevel spec.key literal

/-- Writes the given settings, values of the wrong type are skipped. -/
def applyVelocitySettings (patcher : TomlPatcher) (settings : String → Option SettingValue) :
    TomlPatcher :=
  VELOCITY_SETTINGS.foldl (fun patcher e =>
    match settings e.1 with
    | none => patcher
    | some value => applySetting patcher e.2 value) patcher

end Settings

/-! ## The configurator -/

def VELOCITY_CONFIG : String := "velocity.toml"

def FORWARDING_SECRET_FILE : String := "forwarding.secret"

inductive ForwardingMode
  | modern
  | legacy
  deriving DecidableEq, Repr

/-- `mode.toUpperCase()`. -/
def ForwardingMode.upper : ForwardingMode → Text
  | .modern => unitsOf "MODERN"
  | .legacy => unitsOf "LEGACY"

/-- A value that `Bun.TOML.parse` returns. -/
inductive Datum
  /-- The text is what `String` makes of it. -/
  | scalar (text : Text)
  | array (items : List Datum)
  | table (entries : List (Text × Datum))

mutual

/-- `String`. -/
def Datum.shown : Datum → Text
  | .scalar text => text
  | .array items => Properties.joinWith (unitsOf ",") (Datum.allShown items)
  | .table _ => unitsOf "[object Object]"

/-- `map(String)`. -/
def Datum.allShown : List Datum → List Text
  | [] => []
  | item :: items => item.shown :: Datum.allShown items

end

structure VelocityLib where
  /-- `Bun.TOML.parse`, with the entries of a table as `Object.entries` lists them; none where
      it throws. -/
  parseToml : Text → Option (List (Text × Datum))
  /-- `VELOCITY_3_TEMPLATE`. -/
  template3 : Text
  /-- `VELOCITY_4_TEMPLATE`. -/
  template4 : Text

structure VelocityServer where
  aliasName : Text
  address : Text
  deriving DecidableEq, Repr

structure VelocityNetwork where
  mode : ForwardingMode
  servers : List VelocityServer
  /-- The names players are sent to in order, the first one is the default. -/
  tryList : List Text
  /-- Values the user picked, they win over the defaults. -/
  settings : String → Option SettingValue

/-- `TRY_COMMENT`. -/
def TRY_COMMENT : Text :=
  unitsOf
    "# In what order we should try servers when a player logs in or is kicked from a server."

section Configure

variable (lib : VelocityLib)

/-- Template for a proxy that never started, bound to the panel assigned port. -/
def velocityTemplate (port : Nat) (version : Option Text) : Text :=
  let template := if isBefore version (unitsOf "4.0") then lib.template3 else lib.template4
  ((TomlPatcher.parse template).setTopLevel (unitsOf "bind")
    (Toml.TomlValue.string (unitsOf "0.0.0.0:" ++ unitsOf (Nat.repr port)))).toText

/-- The entries of `forced-hosts`, of a list by position. -/
def forcedHosts (text : Text) : Option (List (Text × Datum)) :=
  match ((lib.parseToml text).getD []).lookup (unitsOf "forced-hosts") with
  | some (.table entries) => some entries
  | some (.array items) => some (items.zipIdx.map fun e => (unitsOf (Nat.repr e.2), e.1))
  | _ => none

/-- The names that a forced host points at. -/
def targetsOf : Datum → List Text
  | .array items => Datum.allShown items
  | _ => []

/-- Velocity refuses to start when a forced host points at an unknown server, so those
    targets go away. None when nothing has to change. -/
def prunedForcedHosts (text : Text) (servers : List VelocityServer) : Option (List Text) :=
  match forcedHosts lib text with
  | none => none
  | some hosts =>
      let known := servers.map VelocityServer.aliasName
      let kept := hosts.map fun e => (e.1, targetsOf e.2, (targetsOf e.2).filter (known.contains ·))
      if kept.any fun e => e.2.2.length != e.2.1.length then
        some ((kept.filter fun e => e.2.2 ≠ []).map fun e =>
          Toml.TomlPatcher.entryLine e.1 (Toml.TomlValue.list e.2.2))
      else none

/-- Writes forwarding and the server list of a network into `velocity.toml`. -/
def configureVelocity (text : Text) (network : VelocityNetwork) : Text :=
  let patcher := applyVelocitySettings
    ((TomlPatcher.parse text).setTopLevel (unitsOf "online-mode") (Toml.TomlValue.bool true))
    network.settings
  let patcher := patcher.setTopLevel (unitsOf "player-info-forwarding-mode")
    (Toml.TomlValue.string network.mode.upper)
  let patcher := patcher.setTopLevel (unitsOf "forwarding-secret-file")
    (Toml.TomlValue.string (unitsOf FORWARDING_SECRET_FILE))
  let servers := network.servers.map fun s =>
    Toml.TomlPatcher.entryLine s.aliasName (Toml.TomlValue.string s.address)
  let patcher := patcher.replaceTable (unitsOf "servers")
    (servers ++ [[], TRY_COMMENT, unitsOf "try = " ++ Toml.TomlValue.list network.tryList])
  match prunedForcedHosts lib text network.servers with
  | some hosts => (patcher.replaceTable (unitsOf "forced-hosts") hosts).toText
  | none => patcher.toText

end Configure

end Kubek.Networks
