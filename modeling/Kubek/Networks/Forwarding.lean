/-
  Kubek.Networks.Forwarding

  How a backend is told to trust the proxy (`forwarding/*.ts`, `config/yaml-patcher.ts`).

  The `yaml` package is a parameter: what it finds at a path of a text, and the text it
  makes when a value is added.
-/

import Kubek.Networks.VelocityConfig

namespace Kubek.Networks

open Properties (Text unitsOf)
open Toml (TomlPatcher)

/-! ## Files -/

/-- Read access to one server folder: none where the read fails, `some none` for a missing
    file. -/
abbrev ServerFiles := String → Option (Option Text)

structure FileEdit where
  path : String
  before : Option Text
  after : Text
  deriving DecidableEq, Repr

/-- Edit of a file only when its text really changes. -/
def editOf (path : String) (before : Option Text) (after : Text) : List FileEdit :=
  if before = some after then [] else [⟨path, before, after⟩]

/-! ## `yaml-patcher.ts` -/

/-- `YamlScalar`. -/
inductive YamlScalar
  | string (text : Text)
  | boolean (value : Bool)
  deriving DecidableEq, Repr

/-- The node at a path. -/
inductive YamlNode
  /-- With its value, none for one that is no `YamlScalar`, and its range. -/
  | scalar (value : Option YamlScalar) (start stop : Nat)
  | other

structure Yaml where
  /-- `parseDocument` and `getIn`; none for a text with errors. -/
  lookup : Text → List Text → Option YamlNode
  /-- `setIn` and `toString`; none where the document is no mapping. -/
  setIn : Text → List Text → YamlScalar → Option Text
  /-- How `toString` spells a string, without its quotes. -/
  spelled : Text → Text

/-- Every `'` doubled. -/
def doubled (text : Text) : Text :=
  Properties.replaceAll Toml.SINGLE_QUOTE [Toml.SINGLE_QUOTE, Toml.SINGLE_QUOTE] text

/-- Bukkit and Paper write single quoted strings. -/
def yamlLiteral : YamlScalar → Text
  | .string text => Toml.SINGLE_QUOTE :: doubled text ++ [Toml.SINGLE_QUOTE]
  | .boolean value => Toml.TomlValue.bool value

section Yaml

variable (yaml : Yaml)

/-- `setOne`. -/
def setOne (source : Text) (path : List Text) (value : YamlScalar) : Option Text :=
  match yaml.lookup source path with
  | none => none
  | some (.scalar found start stop) =>
      if found = some value then some source
      else some (source.take start ++ yamlLiteral value ++ source.drop stop)
  | some .other => yaml.setIn source path value

/-- Sets scalars by path; none where it throws. -/
def setYamlValues (text : Option Text) (values : List (List Text × YamlScalar)) : Option Text :=
  values.foldlM (fun source e => setOne yaml source e.1 e.2) (text.getD [])

/-- Scalar at a path, none when it is missing or the text is broken. -/
def readYamlValue (text : Option Text) (path : List Text) : Option YamlScalar :=
  match text with
  | none => none
  | some [] => none
  | some source =>
      match yaml.lookup source path with
      | some (.scalar value _ _) => value
      | _ => none

end Yaml

/-! ## Backends -/

inductive BackendForwardingKind
  | paper
  | fabric
  | spigot
  deriving DecidableEq, Repr

structure ForwardingInput where
  mode : ForwardingMode
  secret : Text
  gameVersion : Option Text

def FABRIC_PROXY_CONFIG : String := "config/FabricProxy-Lite.toml"
def PAPER_GLOBAL : String := "config/paper-global.yml"
def PAPER_LEGACY : String := "paper.yml"
def SPIGOT_CONFIG : String := "spigot.yml"

/-- Defaults of FabricProxy-Lite 2.x. -/
def FABRIC_TEMPLATE : Text :=
  Properties.joinWith [Properties.LF]
    [unitsOf "hackOnlineMode = true", unitsOf "hackEarlySend = false",
      unitsOf "hackMessageChain = true",
      unitsOf "disconnectMessage = \x22This server requires you to connect with Velocity.\x22",
      unitsOf "secret = \x22\x22", []]

def BUNGEECORD : List Text := [unitsOf "settings", unitsOf "bungeecord"]

/-- `modes`. Velocity modern forwarding needs the 1.13 login plugin channel. -/
def forwardingModes (gameVersion : Option Text) : BackendForwardingKind → List ForwardingMode
  | .paper =>
      if isBefore gameVersion (unitsOf "1.13") then [.legacy] else [.modern, .legacy]
  | .fabric => [.modern]
  | .spigot => [.legacy]

section Forwarding

variable (yaml : Yaml) (files : ServerFiles)

/-- `spigot.yml` bungeecord switch, shared by Spigot and Paper in legacy mode. -/
def bungeecordEdits (enabled : Bool) : Option (List FileEdit) := do
  let before ← files SPIGOT_CONFIG
  -- off is the default, a missing file needs no edit
  if !enabled && readYamlValue yaml before BUNGEECORD ≠ some (.boolean true) then return []
  let after ← setYamlValues yaml before [(BUNGEECORD, .boolean enabled)]
  return editOf SPIGOT_CONFIG before after

/-- `SpigotForwarding.edits`. -/
def spigotEdits : Option (List FileEdit) := bungeecordEdits yaml files true

/-- `FabricForwarding.edits`. -/
def fabricEdits (input : ForwardingInput) : Option (List FileEdit) := do
  let before ← files FABRIC_PROXY_CONFIG
  let after := ((TomlPatcher.parse (before.getD FABRIC_TEMPLATE)).setTopLevel (unitsOf "secret")
    (Toml.TomlValue.string input.secret)).toText
  return editOf FABRIC_PROXY_CONFIG before after

/-- `PaperForwarding.edits`. -/
def paperEdits (input : ForwardingInput) : Option (List FileEdit) := do
  let modern := input.mode = .modern
  let legacyLayout := isBefore input.gameVersion (unitsOf "1.19")
  let file := if legacyLayout then PAPER_LEGACY else PAPER_GLOBAL
  let pathOf (key : String) : List Text :=
    (if legacyLayout then [unitsOf "settings", unitsOf "velocity-support"]
      else [unitsOf "proxies", unitsOf "velocity"]) ++ [unitsOf key]
  let before ← files file
  let values : List (List Text × YamlScalar) :=
    (pathOf "enabled", .boolean modern) ::
      if modern then
        [(pathOf "online-mode", .boolean true), (pathOf "secret", .string input.secret)]
      else []
  let velocity ←
    if ¬ modern ∧ before = none then some []
    else (setYamlValues yaml before values).map (editOf file before)
  let bungeecord ← bungeecordEdits yaml files (!modern)
  return velocity ++ bungeecord

def forwardingEdits (input : ForwardingInput) :
    BackendForwardingKind → Option (List FileEdit)
  | .paper => paperEdits yaml files input
  | .fabric => fabricEdits files input
  | .spigot => spigotEdits yaml files

end Forwarding

end Kubek.Networks
