/-
  Kubek.Launch.StoredVariables

  The operations that store the variables of a server (servers.factory.ts,
  servers.service.ts, server-core-changer.ts, server-transfer.ts) and the launch that
  reads them (instance.ts, launch-command-builder.ts), as one machine.

  A launch takes the instance's configuration and the scope once, before its first await,
  so it is one step. An instance that a core change drops from the registry can still
  restart with the configuration it has.
-/

import Kubek.Launch.BlueprintResolver
import Kubek.Lib.Machine

namespace Kubek.Launch

open JsJson JsText Transition

section Panel

variable {js : Numbers}

/-! ## Servers and instances -/

inductive RuntimeKind
  | native
  | docker
  deriving DecidableEq, Repr

/-- `IServer`. -/
structure IServer (N : Type) where
  id : Text
  name : Text
  blueprintId : Text
  runtimeKind : Option RuntimeKind := none
  vars : Record (JsonValue N)

structure LoadedBlueprint (N : Type) where
  manifest : KubekBlueprintManifest N
  valid : Bool := true
  /-- `isSupportedHere`. -/
  supportedHere : Bool := true

structure ServerInstance (N : Type) where
  config : IServer N
  /-- The manifest the registry had when the instance was made. -/
  blueprint : Option (KubekBlueprintManifest N)
  /-- The registry of instances still has it. -/
  registered : Bool := true

/-- A native launch: the command and what it was made of. -/
structure NativeLaunch (N : Type) where
  blueprint : KubekBlueprintManifest N
  vars : Record (JsonValue N)
  template : Text
  scope : ResolveScope N
  command : Text

structure Panel (N : Type) where
  /-- The registry of blueprints. -/
  blueprints : Record (LoadedBlueprint N) := fun _ => none
  servers : List (IServer N) := []
  /-- Every instance made so far. -/
  instances : List (ServerInstance N) := []
  /-- Every variable an archive brought; the panel reads none of it. -/
  imported : List (Text × JsonValue N) := []
  /-- Every command a launch ran. -/
  launched : List (NativeLaunch N) := []

/-- What comes back of variables that were stored. -/
def storedRecord (vars : Record (JsonValue js.Num)) : Record (JsonValue js.Num) :=
  fun key => (vars key).map (stored js)

namespace Panel

variable (p : Panel js.Num)

/-- `findById`. -/
def findById (id : Text) : Option (IServer js.Num) := p.servers.find? (·.id = id)

/-- `findByName`. -/
def findByName (name : Text) : Option (IServer js.Num) := p.servers.find? (·.name = name)

/-- `create` of the repository; a random id does not repeat. -/
def insertServer (server : IServer js.Num) : Option (Panel js.Num) :=
  if (p.findById server.id).isSome then none
  else some { p with servers := p.servers ++ [{ server with vars := storedRecord server.vars }] }

/-- `update` of the repository: the row that is written. -/
def updateServer (server : IServer js.Num) : Panel js.Num :=
  { p with
    servers := p.servers.map fun row =>
      if row.id = server.id then { server with vars := storedRecord server.vars } else row }

/-- `assertBlueprintUsable`. -/
def usableBlueprint (blueprintId : Text) (runtimeKind : Option RuntimeKind) :
    Option (KubekBlueprintManifest js.Num) :=
  match p.blueprints blueprintId with
  | none => none
  | some blueprint =>
      if !blueprint.valid || !blueprint.supportedHere then none
      else if runtimeKind = some .docker ∧ !blueprint.manifest.dockerProfile then none
      else if runtimeKind = some .native ∧ blueprint.manifest.dockerOnly then none
      else some blueprint.manifest

/-! ## Creation and settings -/

/-- `serverRuntime` of the configuration. -/
inductive ServerRuntimeSetting
  | auto
  | native
  | docker
  deriving DecidableEq, Repr

structure NewServerProps (N : Type) where
  name : Text
  blueprintId : Text
  vars : Record (JsonValue N)
  runtime : Option RuntimeKind := none

/-- `resolveRuntime`. -/
def resolveRuntime (manifest : KubekBlueprintManifest js.Num) (override : Option RuntimeKind)
    (setting : ServerRuntimeSetting) (available : Bool) : Option RuntimeKind :=
  let requireDocker := if manifest.dockerProfile && available then some .docker else none
  if manifest.dockerOnly then requireDocker
  else
    match override, setting with
    | some .docker, _ => requireDocker
    | some .native, _ => some .native
    | none, .docker => requireDocker
    | none, .native => some .native
    | none, .auto => some (if manifest.dockerProfile && available then .docker else .native)

/-- `prepareServerDataAndCreateServer`. -/
def create (id : Text) (props : NewServerProps js.Num) (setting : ServerRuntimeSetting)
    (dockerAvailable : Bool) : Option (Panel js.Num) :=
  match p.usableBlueprint props.blueprintId none with
  | none => none
  | some manifest =>
      match validateVariables manifest props.vars with
      | .error _ => none
      | .ok vars =>
          if (p.findByName props.name).isSome then none
          else
            match resolveRuntime manifest props.runtime setting dockerAvailable with
            | none => none
            | some kind =>
                p.insertServer
                  { id, name := props.name, blueprintId := manifest.id
                    runtimeKind := some kind, vars }

/-- A registered instance gets the new configuration. -/
def setConfig (server : IServer js.Num) : Panel js.Num :=
  { p with
    instances := p.instances.map fun i =>
      if i.registered ∧ i.config.id = server.id then
        { i with config := { server with vars := storedRecord server.vars } }
      else i }

/-- `\x7b ...vars, ...updates \x7d`. -/
def spreadOver (vars updates : Record (JsonValue js.Num)) : Record (JsonValue js.Num) :=
  fun key => (updates key).or (vars key)

/-- `updateServerSettings`. -/
def updateServerSettings (id : Text) (name : Option Text)
    (updates : Option (Record (JsonValue js.Num))) : Option (Panel js.Num) :=
  match p.findById id with
  | none => none
  | some server =>
      if name.any fun name => (p.findByName name).any (·.id ≠ id) then none
      else
        let server := { server with name := name.getD server.name }
        match updates with
        | none => some ((p.updateServer server).setConfig server)
        | some updates =>
            match p.blueprints server.blueprintId with
            | none => none
            | some blueprint =>
                match validateVariables blueprint.manifest (spreadOver server.vars updates) with
                | .error _ => none
                | .ok vars =>
                    let server := { server with vars }
                    some ((p.updateServer server).setConfig server)

/-- `CUSTOM_BLUEPRINT_ID`. -/
def customBlueprintId : Text := "com.kubek.custom".toList

/-- `changeCore`; the caller has checked that the server is stopped or crashed. -/
def changeCore (id blueprintId : Text) (version : Option Text) (customCoreFile : Bool) :
    Option (Panel js.Num) :=
  match p.findById id with
  | none => none
  | some source =>
      if blueprintId = customBlueprintId ∧ !customCoreFile then none
      else
        match p.usableBlueprint blueprintId (some (source.runtimeKind.getD .native)) with
        | none => none
        | some manifest =>
            match incoming manifest source.vars version with
            | none => none
            | some incoming =>
                match validateVariables manifest incoming with
                | .error _ => none
                | .ok vars =>
                    let updated := p.updateServer
                      { source with
                        blueprintId := manifest.id
                        runtimeKind := some (source.runtimeKind.getD .native)
                        vars }
                    -- the next start makes an instance of the new blueprint
                    some { updated with
                      instances := p.instances.map fun i =>
                        if i.config.id = id then { i with registered := false } else i }
where
  incoming (manifest : KubekBlueprintManifest js.Num) (vars : Record (JsonValue js.Num)) :
      Option Text → Option (Record (JsonValue js.Num))
    | version =>
        match versionVariable manifest with
        | none => some vars
        | some v =>
            match version with
            | none => none
            | some [] => none
            | some version => some (vars.set v.key (.str version))

/-! ## Copies -/

/-- `duplicateServer`. -/
def duplicateServer (sourceId newName id : Text) : Option (Panel js.Num) :=
  match p.findById sourceId with
  | none => none
  | some source =>
      let trimmed := trimChars newName
      if trimmed = [] ∨ (p.findByName trimmed).isSome then none
      else p.insertServer { source with id, name := trimmed }

/-- The manifest of an archive; `server` is there. -/
structure ExportManifest (N : Type) where
  kubekExport : Nat := 1
  name : Option Text := none
  blueprintId : Option Text := none
  runtimeKind : Option RuntimeKind := none
  vars : Option (JsonValue N) := none

/-- The own fields that `\x7b ...v \x7d` copies. -/
def spread : Option (JsonValue js.Num) → List (Text × JsonValue js.Num)
  | some (.obj fields) => fields
  | some (.arr items) => items.zipIdx.map fun (item, i) => (Nat.toDigits 10 i, item)
  | some (.str text) => text.zipIdx.map fun (c, i) => (Nat.toDigits 10 i, .str [c])
  | _ => []

/-- The record with these fields. -/
def ofFields (fields : List (Text × JsonValue js.Num)) : Record (JsonValue js.Num) :=
  fun key => (fields.find? (·.1 = key)).map Prod.snd

/-- `importedVariables`: without the path of a Java on another machine. -/
def importedVariables (manifest : ExportManifest js.Num) : List (Text × JsonValue js.Num) :=
  (spread manifest.vars).filter (·.1 ≠ "JAVA_PATH".toList)

/-- The variables are checked when the blueprint is known. -/
def importChecked (blueprintId : Text) (vars : Record (JsonValue js.Num)) : Bool :=
  match p.blueprints blueprintId with
  | none => true
  | some blueprint =>
      match assertLaunchVariablesSafe blueprint.manifest vars with
      | .ok () => true
      | .error _ => false

/-- `desiredName`. -/
def importedName (overrideName : Option Text) (manifest : ExportManifest js.Num) : Text :=
  let given := trimChars (overrideName.getD [])
  trimChars (if given = [] then manifest.name.getD [] else given)

/-- `importServer`, from the unpacked archive on. -/
def importServer (overrideName : Option Text) (manifest : ExportManifest js.Num) (id : Text) :
    Option (Panel js.Num) :=
  if manifest.kubekExport ≠ 1 then none
  else
    let desiredName := importedName overrideName manifest
    if desiredName = [] ∨ (p.findByName desiredName).isSome then none
    else
      match manifest.blueprintId with
      | none => none
      | some blueprintId =>
          let vars := importedVariables manifest
          if blueprintId = [] ∨ !p.importChecked blueprintId (ofFields vars) then none
          else
            { p with imported := p.imported ++ vars }.insertServer
              { id, name := desiredName, blueprintId
                runtimeKind := some (manifest.runtimeKind.getD .native), vars := ofFields vars }

/-- A server and its instance go. -/
def deleteServer (id : Text) : Option (Panel js.Num) :=
  some { p with
    servers := p.servers.filter (·.id ≠ id)
    instances := p.instances.map fun i =>
      if i.config.id = id then { i with registered := false } else i }

/-! ## Launch -/

/-- `ensureInstance`. -/
def ensureInstance (id : Text) : Option (Panel js.Num) :=
  match p.findById id with
  | none => none
  | some server =>
      if p.instances.any fun i => i.registered ∧ i.config.id = id then some p
      else
        some { p with
          instances := p.instances ++
            [{ config := server
               blueprint := (p.blueprints server.blueprintId).map (·.manifest) }] }

end Panel

/-- The Java installations of the machine. -/
structure JavaService where
  resolveJavaBinary : Text → Option Text
  getManagedJavaPath : Text → Option Text

inductive LaunchError
  | noBlueprint
  | noCommand
  | noJavaAt (path : Text)
  | notInstalled (version : Text)
  | unsafeArgument (e : UnsafeLaunchArgumentError)
  /-- A conversion throws. -/
  | typeError

def LaunchError.message (serverId : Text) : LaunchError → String
  | .noBlueprint => "Server " ++ String.ofList serverId ++ " has no blueprint"
  | .noCommand => "Server " ++ String.ofList serverId ++ " has no blueprint launch command"
  | .noJavaAt path => "No java binary found at " ++ String.ofList path
  | .notInstalled version => "Managed Java " ++ String.ofList version ++ " is not installed"
  | .unsafeArgument e => e.message
  | .typeError => "No default value"

/-- The startup command for this platform; an empty one counts as none. -/
def startupCommand (host : Host js.Num) (blueprint : KubekBlueprintManifest js.Num) :
    Option Text :=
  match blueprint.startup with
  | none => none
  | some startup =>
      let ofPlatform := (startup.commandByPlatform.find? (·.1 = host.platform)).map Prod.snd
      (ofPlatform.or startup.command).filter (· ≠ [])

/-- The Java binary of the launch: the server's own path wins over the managed runtime. -/
def javaBin (java : JavaService) (blueprint : KubekBlueprintManifest js.Num)
    (vars : Record (JsonValue js.Num)) (scope : ResolveScope js.Num) :
    Except LaunchError (Option Text) :=
  match vars "JAVA_PATH".toList with
  | some (.str path) => if trimChars path = [] then managed else custom (trimChars path)
  | _ => managed
where
  custom (path : Text) : Except LaunchError (Option Text) :=
    match java.resolveJavaBinary path with
    | none => .error (.noJavaAt path)
    | some path => .ok (some path)
  managed : Except LaunchError (Option Text) :=
    match javaVersion blueprint scope with
    | none => .error .typeError
    | some none => .ok none
    | some (some []) => .ok none
    | some (some version) =>
        match java.getManagedJavaPath version with
        | none => .error (.notInstalled version)
        | some path => .ok (some path)

/-- `scope.JAVA_BIN`. -/
def withJavaBin (host : Host js.Num) (scope : ResolveScope js.Num) :
    Option Text → ResolveScope js.Num
  | none => scope
  | some path => scope.set "JAVA_BIN".toList (ownText (host.resolve path))

def nativeCommand (host : Host js.Num) (java : JavaService)
    (blueprint : KubekBlueprintManifest js.Num) (vars : Record (JsonValue js.Num))
    (scope : ResolveScope js.Num) : Except LaunchError (NativeLaunch js.Num) :=
  match startupCommand host blueprint with
  | none => .error .noCommand
  | some template =>
      match javaBin java blueprint vars scope with
      | .error e => .error e
      | .ok path =>
          let scope := withJavaBin host scope path
          -- old values saved before the check existed
          match assertLaunchVariablesSafe blueprint vars with
          | .error e => .error (.unsafeArgument e)
          | .ok () =>
              match substitute template scope with
              | none => .error .typeError
              | some command => .ok { blueprint, vars, template, scope, command }

/-- The scope of an instance and then its native command. -/
def launchNative (host : Host js.Num) (java : JavaService) (i : ServerInstance js.Num) :
    Except LaunchError (NativeLaunch js.Num) :=
  match i.blueprint with
  | none => .error .noBlueprint
  | some blueprint =>
      match buildScope host blueprint i.config.id i.config.name i.config.vars with
      | none => .error .typeError
      | some scope => nativeCommand host java blueprint i.config.vars scope

/-- `launch` of an instance that does not run in a container. -/
def Panel.launch (host : Host js.Num) (p : Panel js.Num) (java : JavaService) (n : Nat) :
    Option (Panel js.Num) :=
  match p.instances[n]? with
  | none => none
  | some i =>
      if i.config.runtimeKind = some .docker then none
      else
        match launchNative host java i with
        | .error _ => none
        | .ok launch => some { p with launched := p.launched ++ [launch] }

/-! ## Runs -/

inductive Event (js : Numbers)
  /-- A blueprint is installed, replaced or removed. -/
  | setBlueprint (id : Text) (blueprint : Option (LoadedBlueprint js.Num))
  | create (id : Text) (props : Panel.NewServerProps js.Num)
      (setting : Panel.ServerRuntimeSetting) (dockerAvailable : Bool)
  | updateServerSettings (id : Text) (name : Option Text)
      (updates : Option (Record (JsonValue js.Num)))
  | changeCore (id blueprintId : Text) (version : Option Text) (customCoreFile : Bool)
  | duplicateServer (sourceId newName id : Text)
  | importServer (overrideName : Option Text) (manifest : Panel.ExportManifest js.Num) (id : Text)
  | deleteServer (id : Text)
  | ensureInstance (id : Text)
  | launch (java : JavaService) (n : Nat)

def step (host : Host js.Num) (p : Panel js.Num) : Event js → Option (Panel js.Num)
  | .setBlueprint id blueprint =>
      some { p with blueprints := fun k => if k = id then blueprint else p.blueprints k }
  | .create id props setting dockerAvailable => p.create id props setting dockerAvailable
  | .updateServerSettings id name updates => p.updateServerSettings id name updates
  | .changeCore id blueprintId version customCoreFile =>
      p.changeCore id blueprintId version customCoreFile
  | .duplicateServer sourceId newName id => p.duplicateServer sourceId newName id
  | .importServer overrideName manifest id => p.importServer overrideName manifest id
  | .deleteServer id => p.deleteServer id
  | .ensureInstance id => p.ensureInstance id
  | .launch java n => p.launch host java n

/-- The panel, from an empty database on. -/
def machine (host : Host js.Num) : Machine (Panel js.Num) (Event js) where
  init p := p = {}
  step := step host

end Panel

end Kubek.Launch
