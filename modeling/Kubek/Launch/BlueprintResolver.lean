/-
  Kubek.Launch.BlueprintResolver

  From the variables of a server to the texts of its placeholders
  (blueprint-resolver.service.ts): the check that a request's variables pass before they
  are stored, the scope of a launch, and the substitution.

  An entry of a scope remembers the stored variable its value was read from. The panel
  has no such note; it is what the statements about substituted texts refer to.
-/

import Kubek.Launch.LaunchArgs

namespace Kubek.Launch

open JsJson JsText

section Resolver

variable {js : Numbers}

/-! ## Scope -/

structure Entry (N : Type) where
  value : JsonValue N
  /-- The stored variable it is the value of. -/
  stored : Option Text := none

abbrev ResolveScope (N : Type) := Record (Entry N)

/-- The machine the panel runs on. -/
structure Host (N : Type) where
  /-- `process.platform`. -/
  platform : Text
  /-- `path.resolve`. -/
  resolve : Text → Text
  uid : Option N := none
  gid : Option N := none

/-- `scope[key] ?? value`. -/
def scopeOr (scope : ResolveScope js.Num) (key : Text) (value : JsonValue js.Num) :
    Entry js.Num :=
  ((scope key).filter fun e => (JsonValue.nonNull (some e.value)).isSome).getD { value }

/-- `variables[key] ?? default ?? ""` for a variable of the blueprint. -/
def variableEntry (vars : Record (JsonValue js.Num)) (v : BlueprintVariable js.Num) :
    Entry js.Num :=
  match JsonValue.nonNull (vars v.key) with
  | some value => { value, stored := some v.key }
  | none => { value := (JsonValue.nonNull v.default).getD (.str []) }

/-- `variables[key] ?? scope[key] ?? default` for a port. -/
def portEntry (vars : Record (JsonValue js.Num)) (scope : ResolveScope js.Num)
    (port : BlueprintPort js.Num) : Entry js.Num :=
  match JsonValue.nonNull (vars port.key) with
  | some value => { value, stored := some port.key }
  | none => scopeOr scope port.key (.num port.default)

/-- A port goes under its key and under the name its `env` gives it. -/
def addPort (vars : Record (JsonValue js.Num)) (scope : ResolveScope js.Num)
    (port : BlueprintPort js.Num) : ResolveScope js.Num :=
  let e := portEntry vars scope port
  let scope := scope.set port.key e
  match port.env with
  | some env => if env = [] then scope else scope.set env e
  | none => scope

/-- `SERVER_PORT` is the value of the primary port. -/
def addServerPort (scope : ResolveScope js.Num) :
    Option (BlueprintPort js.Num) → ResolveScope js.Num
  | none => scope
  | some port => scope.set "SERVER_PORT".toList (scopeOr scope port.key (.num port.default))

/-- An entry with a text of the panel's own. -/
def ownText (text : Text) : Entry js.Num := { value := .str text }

/-- `uid ?? ""`. -/
def idEntry (id : Option js.Num) : Entry js.Num :=
  { value := (id.map JsonValue.num).getD (.str []) }

/-- The itzg image tags that exist. -/
def javaTags : List Nat := [8, 11, 16, 17, 21, 25]

/-- `javaImageTag`; the outer none when `Number` throws. -/
def javaImageTag (version : Option (Entry js.Num)) : Option (Option Text) :=
  match version with
  | none => some none
  | some e =>
      match toNumber js e.value with
      | none => none
      | some v =>
          if !js.isFinite v then some none
          else
            -- the first tag that is no less, which is the version itself when it is a tag
            let tag := javaTags.find? fun t => js.eq (js.ofNat t) v || js.lt v (js.ofNat t)
            some (some ("java".toList ++ Nat.toDigits 10 (tag.getD 25)))

/-- `buildScope`; none when a conversion throws. -/
def buildScope (host : Host js.Num) (blueprint : KubekBlueprintManifest js.Num)
    (serverId serverName : Text) (vars : Record (JsonValue js.Num)) :
    Option (ResolveScope js.Num) :=
  let scope : ResolveScope js.Num :=
    blueprint.vars.foldl (fun scope v => scope.set v.key (variableEntry vars v)) fun _ => none
  let scope := blueprint.ports.foldl (addPort vars) scope
  let primaryPort := (blueprint.ports.find? (·.primary)).or blueprint.ports.head?
  let scope :=
    if serverId = [] then scope
    else
      (scope.set "SERVER_ID".toList (ownText serverId)).set "SERVER_DIR".toList
        (ownText (host.resolve ("./servers/".toList ++ serverId)))
  let scope :=
    if serverName = [] then scope
    else scope.set "SERVER_NAME".toList (ownText serverName)
  let scope := addServerPort scope primaryPort
  let scope := scope.set "HOST_OS".toList (ownText host.platform)
  let scope := scope.set "EXE_SUFFIX".toList
    (ownText (if host.platform = "win32".toList then ".exe".toList else []))
  let scope := scope.set "HOST_UID".toList (idEntry host.uid)
  let scope := scope.set "HOST_GID".toList (idEntry host.gid)
  (javaImageTag (scope "JAVA_VERSION".toList)).map fun
    | some tag => scope.set "JAVA_IMAGE_TAG".toList (ownText tag)
    | none => scope

/-- What a placeholder is replaced with; none when `String` throws. -/
def scopeText (scope : ResolveScope js.Num) (key : Text) : Option Text :=
  match scope key with
  | none => some []
  | some e => toText js e.value

/-- Fill the placeholders with texts. -/
def fill (text : Text → Option Text) : List Piece → Option Text
  | [] => some []
  | .lit c :: ps => (fill text ps).map (c :: ·)
  | .hole key :: ps =>
      match text key, fill text ps with
      | some value, some rest => some (value ++ rest)
      | _, _ => none

def substitute (template : Text) (scope : ResolveScope js.Num) : Option Text :=
  fill (scopeText scope) (pieces template)

def versionVariable (blueprint : KubekBlueprintManifest js.Num) :
    Option (BlueprintVariable js.Num) :=
  blueprint.vars.find? (·.fromVersions)

/-- `javaVersion`; the outer none when `String` throws. -/
def javaVersion (blueprint : KubekBlueprintManifest js.Num) (scope : ResolveScope js.Num) :
    Option (Option Text) :=
  match blueprint.vars.find? (·.key = "JAVA_VERSION".toList) with
  | none => some none
  | some v =>
      let fallback := (JsonValue.nonNull v.default).getD (.num (js.ofNat 21))
      (toText js (scopeOr scope "JAVA_VERSION".toList fallback).value).map some

/-! ## Where the values of a scope come from -/

/-- An entry that names a stored variable has its value. -/
def Entry.Traced (vars : Record (JsonValue js.Num)) (e : Entry js.Num) : Prop :=
  ∀ s, e.stored = some s → vars s = some e.value

/-- So have all entries. -/
def Traced (vars : Record (JsonValue js.Num)) (scope : ResolveScope js.Num) : Prop :=
  ∀ key e, scope key = some e → e.Traced vars

section Traced

variable {vars : Record (JsonValue js.Num)} {scope : ResolveScope js.Num}

theorem traced_none : Traced vars (fun _ => none) := by
  intro key e h
  cases h

theorem Entry.traced_of_own {value : JsonValue js.Num} : Entry.Traced vars { value } := by
  intro s h
  cases h

theorem Traced.set (h : Traced vars scope) {e : Entry js.Num} (h_e : e.Traced vars)
    (key : Text) : Traced vars (scope.set key e) := by
  intro k e' h_k
  rw [Record.set_apply] at h_k
  split at h_k
  · cases h_k
    exact h_e
  · exact h k e' h_k

theorem Traced.scopeOr (h : Traced vars scope) (key : Text) (value : JsonValue js.Num) :
    (Launch.scopeOr scope key value).Traced vars := by
  unfold Launch.scopeOr
  cases h_e : (scope key).filter fun e => (JsonValue.nonNull (some e.value)).isSome with
  | none => exact Entry.traced_of_own
  | some e => exact h key e (Option.filter_eq_some_iff.mp h_e).1

theorem variableEntry_traced (v : BlueprintVariable js.Num) :
    (variableEntry vars v).Traced vars := by
  unfold variableEntry
  split
  · rename_i value h_value
    intro s h_s
    cases h_s
    exact JsonValue.eq_some_of_nonNull h_value
  · exact Entry.traced_of_own

theorem Traced.portEntry (h : Traced vars scope) (port : BlueprintPort js.Num) :
    (Launch.portEntry vars scope port).Traced vars := by
  unfold Launch.portEntry
  split
  · rename_i value h_value
    intro s h_s
    cases h_s
    exact JsonValue.eq_some_of_nonNull h_value
  · exact h.scopeOr _ _

theorem Traced.addPort (h : Traced vars scope) (port : BlueprintPort js.Num) :
    Traced vars (Launch.addPort vars scope port) := by
  have h_key := h.set (h.portEntry port) port.key
  simp only [Launch.addPort]
  split
  · split
    · exact h_key
    · exact h_key.set (h.portEntry port) _
  · exact h_key

theorem Traced.addServerPort (h : Traced vars scope)
    (primaryPort : Option (BlueprintPort js.Num)) :
    Traced vars (Launch.addServerPort scope primaryPort) := by
  cases primaryPort with
  | none => exact h
  | some port => exact h.set (h.scopeOr _ _) _

/-- A left fold whose every step keeps the scope traced. -/
theorem traced_foldl {α : Type} {f : ResolveScope js.Num → α → ResolveScope js.Num}
    (h_f : ∀ scope a, Traced vars scope → Traced vars (f scope a)) (as : List α)
    (h : Traced vars scope) : Traced vars (as.foldl f scope) := by
  induction as generalizing scope with
  | nil => exact h
  | cons a as ih => exact ih (h_f _ _ h)

theorem buildScope_traced {host : Host js.Num} {blueprint : KubekBlueprintManifest js.Num}
    {serverId serverName : Text} {result : ResolveScope js.Num}
    (h : buildScope host blueprint serverId serverName vars = some result) :
    Traced vars result := by
  unfold buildScope at h
  extract_lets scope₁ scope₂ primaryPort scope₃ scope₄ scope₅ scope₆ scope₇ scope₈ scope₉ at h
  have h₁ : Traced vars scope₁ :=
    traced_foldl (fun _ v h => h.set (variableEntry_traced v) _) _ traced_none
  have h₂ : Traced vars scope₂ := traced_foldl (fun _ port h => h.addPort port) _ h₁
  have h₃ : Traced vars scope₃ := by
    unfold scope₃
    split
    · exact h₂
    · exact (h₂.set Entry.traced_of_own _).set Entry.traced_of_own _
  have h₄ : Traced vars scope₄ := by
    unfold scope₄
    split
    · exact h₃
    · exact h₃.set Entry.traced_of_own _
  have h₅ : Traced vars scope₅ := h₄.addServerPort primaryPort
  have h₉ : Traced vars scope₉ :=
    (((h₅.set Entry.traced_of_own _).set Entry.traced_of_own _).set
      Entry.traced_of_own _).set Entry.traced_of_own _
  obtain ⟨tag, -, rfl⟩ := Option.map_eq_some_iff.mp h
  cases tag with
  | none => exact h₉
  | some tag => exact h₉.set Entry.traced_of_own _

end Traced

/-! ## The check of a request's variables -/

inductive VariableError (N : Type)
  | required (key : Text)
  | notNumber (key : Text)
  | below (key : Text) (arg : Option Text)
  | above (key : Text) (arg : Option Text)
  | notAccepted (key : Text)
  | notUrl (key : Text)
  | portNotNumber (key : Text)
  | unsafeArgument (e : UnsafeLaunchArgumentError)
  /-- A conversion throws. -/
  | typeError

/-- The key an error is about. -/
def VariableError.key {N : Type} : VariableError N → Option Text
  | .required key | .notNumber key | .below key _ | .above key _ | .notAccepted key
  | .notUrl key | .portNotNumber key => some key
  | .unsafeArgument e => some e.key
  | .typeError => none

def VariableError.message {N : Type} : VariableError N → String
  | .required key => variableText key ++ " is required"
  | .notNumber key => variableText key ++ " must be a number"
  | .below key arg => variableText key ++ " must be >= " ++ argText arg
  | .above key arg => variableText key ++ " must be <= " ++ argText arg
  | .notAccepted key => variableText key ++ " must be accepted"
  | .notUrl key => variableText key ++ " must be a URL"
  | .portNotNumber key => "Port " ++ String.ofList key ++ " must be a number"
  | .unsafeArgument e => e.message
  | .typeError => "No default value"
where
  variableText (key : Text) : String := "Variable " ++ String.ofList key
  argText (arg : Option Text) : String := (arg.map String.ofList).getD "undefined"

/-- `parseRules`. -/
def parseRules (rules : Option Text) : List Text :=
  ((splitChars '|' (rules.getD [])).map trimChars).filter (· ≠ [])

/-- `isRequired`. -/
def isRequired (rules : Option Text) : Bool := (parseRules rules).contains "required".toList

/-- `^https?:\/\/`. -/
def isUrl (text : Text) : Bool :=
  "http://".toList.isPrefixOf text || "https://".toList.isPrefixOf text

/-- `Number(arg)`, where a missing argument is `undefined`. -/
def compareArg (lt : js.Num → js.Num → Bool) (v : JsonValue js.Num) (arg : Option Text) : Bool :=
  match v, arg with
  | .num n, some arg => lt n (js.ofText arg)
  | _, _ => false

/-- One round of the loop of `enforceRules`. -/
def enforceRule (key : Text) (value : JsonValue js.Num) (rule : Text) :
    Except (VariableError js.Num) Unit :=
  let parts := splitChars ':' rule
  let name := parts.headD []
  let arg := parts.tail.head?
  if name = "min".toList ∧ compareArg js.lt value arg then .error (.below key arg)
  else if name = "max".toList ∧ compareArg (fun a b => js.lt b a) value arg then
    .error (.above key arg)
  else if name = "accepted".toList ∧ !(value matches .bool true) then .error (.notAccepted key)
  else if name = "url".toList ∧ !((toText js value).any isUrl) then .error (.notUrl key)
  else .ok ()

/-- The loop itself. -/
def enforceRules (key : Text) (value : JsonValue js.Num) :
    List Text → Except (VariableError js.Num) Unit
  | [] => .ok ()
  | rule :: rules =>
      match enforceRule key value rule with
      | .error e => .error e
      | .ok () => enforceRules key value rules

/-- `coerceVariable`. -/
def coerceVariable (v : BlueprintVariable js.Num) (value : JsonValue js.Num) :
    Except (VariableError js.Num) (JsonValue js.Num) :=
  match v.type with
  | .number =>
      match toNumber js value with
      | none => .error .typeError
      | some num => if js.isNaN num then .error (.notNumber v.key) else .ok (.num num)
  | .boolean =>
      match value with
      | .bool b => .ok (.bool b)
      | .str text => .ok (.bool (text = "true".toList))
      | _ => .ok (.bool false)
  | .text =>
      match toText js value with
      | none => .error .typeError
      | some text => .ok (.str text)

/-- One variable of the blueprint; none when it has no value and needs none. -/
def validateVariable (input : Record (JsonValue js.Num)) (v : BlueprintVariable js.Num) :
    Except (VariableError js.Num) (Option (JsonValue js.Num)) :=
  match (JsonValue.nonNull (input v.key)).or v.default with
  | none => if isRequired v.rules then .error (.required v.key) else .ok none
  | some value =>
      match coerceVariable v value with
      | .error e => .error e
      | .ok coerced =>
          match enforceRules v.key coerced (parseRules v.rules) with
          | .error e => .error e
          | .ok () => .ok (some coerced)

/-- The first loop of `validateVariables`. -/
def validateAll (input : Record (JsonValue js.Num)) :
    List (BlueprintVariable js.Num) → Record (JsonValue js.Num) →
      Except (VariableError js.Num) (Record (JsonValue js.Num))
  | [], result => .ok result
  | v :: vs, result =>
      match validateVariable input v with
      | .error e => .error e
      | .ok none => validateAll input vs result
      | .ok (some value) => validateAll input vs (result.set v.key value)

/-- One port. -/
def validatePort (input : Record (JsonValue js.Num)) (port : BlueprintPort js.Num) :
    Except (VariableError js.Num) (JsonValue js.Num) :=
  match input port.key with
  | none => checked port.default
  | some raw =>
      match toNumber js raw with
      | none => .error .typeError
      | some num => checked num
where
  checked (num : js.Num) : Except (VariableError js.Num) (JsonValue js.Num) :=
    if js.isNaN num then .error (.portNotNumber port.key) else .ok (.num num)

/-- The second loop. -/
def validatePorts (input : Record (JsonValue js.Num)) :
    List (BlueprintPort js.Num) → Record (JsonValue js.Num) →
      Except (VariableError js.Num) (Record (JsonValue js.Num))
  | [], result => .ok result
  | port :: ports, result =>
      match validatePort input port with
      | .error e => .error e
      | .ok num => validatePorts input ports (result.set port.key num)

/-- A path of the user's own Java is kept, trimmed. -/
def keepJavaPath (input result : Record (JsonValue js.Num)) : Record (JsonValue js.Num) :=
  match input "JAVA_PATH".toList with
  | some (.str path) =>
      if trimChars path = [] then result
      else result.set "JAVA_PATH".toList (.str (trimChars path))
  | _ => result

def validateVariables (blueprint : KubekBlueprintManifest js.Num)
    (input : Record (JsonValue js.Num)) :
    Except (VariableError js.Num) (Record (JsonValue js.Num)) :=
  match validateAll input blueprint.vars (fun _ => none) with
  | .error e => .error e
  | .ok result =>
      match validatePorts input blueprint.ports result with
      | .error e => .error e
      | .ok result =>
          let result := keepJavaPath input result
          match assertLaunchVariablesSafe blueprint result with
          | .error e => .error (.unsafeArgument e)
          | .ok () => .ok result

/-- An error names the variable it is about, unless a conversion throws. -/
theorem enforceRules_error {key : Text} {value : JsonValue js.Num} {rules : List Text}
    {e : VariableError js.Num} (h : enforceRules key value rules = .error e) :
    e.key = some key := by
  induction rules with
  | nil => cases h
  | cons rule rules ih =>
    rw [enforceRules] at h
    split at h
    · rename_i e' h_rule
      cases h
      simp only [enforceRule] at h_rule
      repeat' split at h_rule
      all_goals cases h_rule
      all_goals rfl
    · exact ih h

theorem validateVariable_error {input : Record (JsonValue js.Num)}
    {v : BlueprintVariable js.Num} {e : VariableError js.Num}
    (h : validateVariable input v = .error e) : e.key = some v.key ∨ e = .typeError := by
  unfold validateVariable at h
  split at h
  · split at h <;> cases h
    exact .inl rfl
  · split at h
    · rename_i e' h_coerce
      cases h
      unfold coerceVariable at h_coerce
      repeat' split at h_coerce
      all_goals cases h_coerce
      · exact .inr rfl
      · exact .inl rfl
      · exact .inr rfl
    · split at h
      · rename_i e' h_rules
        cases h
        exact .inl (enforceRules_error h_rules)
      · cases h

/-! ## Only scalars come out of it -/

/-- All values of the record are texts, numbers or booleans (or null). -/
def Scalars (record : Record (JsonValue js.Num)) : Prop :=
  ∀ key v, record key = some v → v.isScalar = true

theorem Scalars.set {record : Record (JsonValue js.Num)} (h : Scalars record) (key : Text)
    {v : JsonValue js.Num} (h_v : v.isScalar = true) : Scalars (record.set key v) := by
  intro k w h_w
  rw [Record.set_apply] at h_w
  split at h_w
  · cases h_w
    exact h_v
  · exact h k w h_w

theorem coerceVariable_scalar {v : BlueprintVariable js.Num} {value coerced : JsonValue js.Num}
    (h : coerceVariable v value = .ok coerced) : coerced.isScalar = true := by
  unfold coerceVariable at h
  split at h
  · split at h
    · cases h
    · split at h
      · cases h
      · cases h
        rfl
  · split at h <;> cases h <;> rfl
  · split at h
    · cases h
    · cases h
      rfl

theorem validateVariable_scalar {input : Record (JsonValue js.Num)}
    {v : BlueprintVariable js.Num} {value : JsonValue js.Num}
    (h : validateVariable input v = .ok (some value)) : value.isScalar = true := by
  unfold validateVariable at h
  split at h
  · split at h <;> cases h
  · split at h
    · cases h
    · rename_i coerced h_coerced
      split at h
      · cases h
      · cases h
        exact coerceVariable_scalar h_coerced

theorem validateAll_scalars {input : Record (JsonValue js.Num)}
    {vs : List (BlueprintVariable js.Num)} {record result : Record (JsonValue js.Num)}
    (h_record : Scalars record) (h : validateAll input vs record = .ok result) :
    Scalars result := by
  induction vs generalizing record with
  | nil =>
    cases h
    exact h_record
  | cons v vs ih =>
    simp only [validateAll] at h
    split at h
    · cases h
    · exact ih h_record h
    · rename_i value h_value
      exact ih (h_record.set v.key (validateVariable_scalar h_value)) h

theorem validatePort_scalar {input : Record (JsonValue js.Num)} {port : BlueprintPort js.Num}
    {value : JsonValue js.Num} (h : validatePort input port = .ok value) :
    value.isScalar = true := by
  have h_checked : ∀ num, validatePort.checked port num = .ok value → value.isScalar = true := by
    intro num h_num
    unfold validatePort.checked at h_num
    split at h_num
    · cases h_num
    · cases h_num
      rfl
  unfold validatePort at h
  split at h
  · exact h_checked _ h
  · split at h
    · cases h
    · exact h_checked _ h

theorem validatePorts_scalars {input : Record (JsonValue js.Num)}
    {ports : List (BlueprintPort js.Num)} {record result : Record (JsonValue js.Num)}
    (h_record : Scalars record) (h : validatePorts input ports record = .ok result) :
    Scalars result := by
  induction ports generalizing record with
  | nil =>
    cases h
    exact h_record
  | cons port ports ih =>
    simp only [validatePorts] at h
    split at h
    · cases h
    · rename_i value h_value
      exact ih (h_record.set port.key (validatePort_scalar h_value)) h

theorem keepJavaPath_scalars {input result : Record (JsonValue js.Num)} (h : Scalars result) :
    Scalars (keepJavaPath input result) := by
  unfold keepJavaPath
  split
  · split
    · exact h
    · exact h.set _ rfl
  · exact h

/-- What passes is scalar, and its launch variables are safe. -/
theorem validateVariables_ok {blueprint : KubekBlueprintManifest js.Num}
    {input result : Record (JsonValue js.Num)}
    (h : validateVariables blueprint input = .ok result) :
    Scalars result ∧ assertLaunchVariablesSafe blueprint result = .ok () := by
  simp only [validateVariables] at h
  split at h
  · cases h
  · rename_i record₁ h₁
    split at h
    · cases h
    · rename_i record₂ h₂
      split at h
      · cases h
      · rename_i h_safe
        cases h
        have h_scalars₁ : Scalars record₁ :=
          validateAll_scalars (fun key v h_v => by cases h_v) h₁
        exact ⟨keepJavaPath_scalars (validatePorts_scalars h_scalars₁ h₂), h_safe⟩

end Resolver

end Kubek.Launch
