/-
  Kubek.Launch.CheckedCommands

  Which launched commands were checked.

  A command holds texts of stored variables, `String(value)` at each placeholder that
  reads one. The check before the substitution looks at strings, at the keys that a
  startup template names. Numbers and booleans have safe texts anyway. What is left:

    * an array or an object, whose text nobody looked at (`PassedOver.nested`);
    * a string under the key of a port that only its alias brings into the command
      (`PassedOver.alias`).

  Settings, creation and core changes store scalars only, so an array or an object can
  only come with an archive.
-/

import Kubek.Launch.StoredVariables

namespace Kubek.Launch

open JsJson JsText Transition

section Checked

variable {js : Numbers}

/-! ## One launch -/

/-- A placeholder of the command reads the stored variable `s`. -/
def NativeLaunch.Reads (l : NativeLaunch js.Num) (s : Text) : Prop :=
  ∃ key ∈ holes (pieces l.template), ∃ e, l.scope key = some e ∧ e.stored = some s

/-- The text of the stored variable `s`. -/
def NativeLaunch.storedText (l : NativeLaunch js.Num) (s : Text) : Option Text :=
  (l.vars s).bind (toText js)

/-- Every stored text that was substituted passes the check. -/
def NativeLaunch.Checked (l : NativeLaunch js.Num) : Prop :=
  ∀ s text, l.Reads s → l.storedText s = some text → unsafeLaunchReason text = none

/-- Whether it holds, read off the launch. -/
def NativeLaunch.isChecked (l : NativeLaunch js.Num) : Bool :=
  (holes (pieces l.template)).all fun key =>
    (l.scope key).all fun e =>
      e.stored.all fun s =>
        (l.storedText s).all fun text => (unsafeLaunchReason text).isNone

theorem NativeLaunch.isChecked_iff (l : NativeLaunch js.Num) :
    l.isChecked = true ↔ l.Checked := by
  simp only [isChecked, List.all_eq_true, Option.all_eq_true, Option.isNone_iff_eq_none]
  constructor
  · rintro h s text ⟨key, h_key, e, h_e, h_s⟩ h_text
    exact h key h_key e h_e s h_s text h_text
  · intro h key h_key e h_e s h_s text h_text
    exact h s text ⟨key, h_key, e, h_e, h_s⟩ h_text

instance (l : NativeLaunch js.Num) : Decidable l.Checked :=
  decidable_of_iff _ l.isChecked_iff

/-- The check does not look at the value of the stored variable `s`. -/
inductive PassedOver (blueprint : KubekBlueprintManifest js.Num)
    (vars : Record (JsonValue js.Num)) (s : Text) : Prop
  | nested {v : JsonValue js.Num} (h : vars s = some v) (h_v : v.isScalar = false)
  | alias {value : Text} (h : vars s = some (.str value))
      (h_s : s ∉ launchVariableKeys blueprint)

/-- No variable that the command reads and the check passes over has an unsafe text. -/
def NativeLaunch.NoGap (l : NativeLaunch js.Num) : Prop :=
  ∀ s text, l.Reads s → PassedOver l.blueprint l.vars s → l.storedText s = some text →
    unsafeLaunchReason text = none

/-- What a launch that succeeds has done. -/
structure LaunchedFrom (host : Host js.Num) (i : ServerInstance js.Num)
    (l : NativeLaunch js.Num) : Prop where
  blueprint : i.blueprint = some l.blueprint
  vars : l.vars = i.config.vars
  template : startupCommand host l.blueprint = some l.template
  traced : Traced l.vars l.scope
  asserted : assertLaunchVariablesSafe l.blueprint l.vars = .ok ()
  command : substitute l.template l.scope = some l.command

theorem withJavaBin_traced {host : Host js.Num} {vars : Record (JsonValue js.Num)}
    {scope : ResolveScope js.Num} (h : Traced vars scope) (path : Option Text) :
    Traced vars (withJavaBin host scope path) := by
  cases path with
  | none => exact h
  | some path => exact h.set Entry.traced_of_own _

theorem launchNative_ok {host : Host js.Num} {java : JavaService} {i : ServerInstance js.Num}
    {l : NativeLaunch js.Num} (h : launchNative host java i = .ok l) :
    LaunchedFrom host i l := by
  unfold launchNative at h
  split at h
  · cases h
  · rename_i blueprint h_blueprint
    split at h
    · cases h
    · rename_i scope h_scope
      simp only [nativeCommand] at h
      split at h
      · cases h
      · rename_i template h_template
        split at h
        · cases h
        · rename_i path h_path
          split at h
          · cases h
          · rename_i h_asserted
            split at h
            · cases h
            · rename_i command h_command
              cases h
              exact
                { blueprint := h_blueprint
                  vars := rfl
                  template := h_template
                  traced := withJavaBin_traced (buildScope_traced h_scope) path
                  asserted := h_asserted
                  command := h_command }

/-- A launch is checked exactly when nothing unsafe slips past the check. -/
theorem checked_iff_noGap {host : Host js.Num} {i : ServerInstance js.Num}
    {l : NativeLaunch js.Num} (h : LaunchedFrom host i l) : l.Checked ↔ l.NoGap := by
  refine ⟨fun h_checked s text h_reads _ h_text => h_checked s text h_reads h_text, ?_⟩
  intro h_gap s text h_reads h_text
  by_cases h_over : PassedOver l.blueprint l.vars s
  · exact h_gap s text h_reads h_over h_text
  obtain ⟨v, h_v, h_text_v⟩ := Option.bind_eq_some_iff.mp h_text
  -- what the check looks at, and what needs no check
  match v, h_v, h_text_v with
  | .null, _, h_text_v =>
    cases h_text_v
    rfl
  | .bool b, _, h_text_v => exact bool_safe js h_text_v
  | .num n, _, h_text_v =>
    cases h_text_v
    exact number_safe js n
  | .str value, h_v, h_text_v =>
    cases h_text_v
    have h_key : s ∈ launchVariableKeys l.blueprint := by
      by_contra h_key
      exact h_over (.alias h_v h_key)
    exact (assertLaunchVariablesSafe_eq_ok_iff _ _).mp h.asserted s h_key text h_v
  | .arr items, h_v, _ => exact absurd (.nested h_v rfl) h_over
  | .obj fields, h_v, _ => exact absurd (.nested h_v rfl) h_over

/-! ## Arrays and objects come with archives -/

/-- Every array or object among the variables is one that an archive brought. -/
def Brought (imported : List (Text × JsonValue js.Num)) (vars : Record (JsonValue js.Num)) :
    Prop :=
  ∀ key v, vars key = some v → v.isScalar = false →
    ∃ w, (key, w) ∈ imported ∧ stored js v = stored js w

theorem Scalars.brought {vars : Record (JsonValue js.Num)} (h : Scalars vars)
    (imported : List (Text × JsonValue js.Num)) : Brought imported vars := by
  intro key v h_v h_nested
  rw [h key v h_v] at h_nested
  cases h_nested

theorem Brought.mono {imported more : List (Text × JsonValue js.Num)}
    {vars : Record (JsonValue js.Num)} (h : Brought imported vars) :
    Brought (imported ++ more) vars := by
  intro key v h_v h_nested
  obtain ⟨w, h_w, h_eq⟩ := h key v h_v h_nested
  exact ⟨w, List.mem_append_left _ h_w, h_eq⟩

/-- Storing changes neither what is an array or object nor where it came from. -/
theorem Brought.storedRecord {imported : List (Text × JsonValue js.Num)}
    {vars : Record (JsonValue js.Num)} (h : Brought imported vars) :
    Brought imported (Launch.storedRecord vars) := by
  intro key v h_v h_nested
  obtain ⟨u, h_u, rfl⟩ := Option.map_eq_some_iff.mp h_v
  rw [isScalar_stored] at h_nested
  obtain ⟨w, h_w, h_eq⟩ := h key u h_u h_nested
  exact ⟨w, h_w, by rw [stored_stored, h_eq]⟩

theorem brought_ofFields (imported fields : List (Text × JsonValue js.Num)) :
    Brought (imported ++ fields) (Panel.ofFields fields) := by
  intro key v h_v _
  obtain ⟨⟨k, w⟩, h_find, rfl⟩ := Option.map_eq_some_iff.mp h_v
  have h_k : k = key := by simpa using List.find?_some h_find
  subst h_k
  exact ⟨w, List.mem_append_right _ (List.mem_of_find?_eq_some h_find), rfl⟩

namespace Panel

/-- The variables of all servers and instances. -/
structure AllBrought (p : Panel js.Num) : Prop where
  servers : ∀ server ∈ p.servers, Brought p.imported server.vars
  instances : ∀ i ∈ p.instances, Brought p.imported i.config.vars

theorem allBrought_empty : AllBrought ({} : Panel js.Num) where
  servers server h_server := by cases h_server
  instances i h_i := by cases h_i

variable {p p' : Panel js.Num}

theorem AllBrought.insertServer (h : AllBrought p) {server : IServer js.Num}
    (h_server : Brought p.imported server.vars) (h_p : p.insertServer server = some p') :
    AllBrought p' := by
  unfold Panel.insertServer at h_p
  split at h_p
  · cases h_p
  · cases h_p
    refine ⟨fun row h_row => ?_, h.instances⟩
    rcases List.mem_append.mp h_row with h_row | h_row
    · exact h.servers row h_row
    · rw [List.mem_singleton.mp h_row]
      exact h_server.storedRecord

theorem AllBrought.updateServer (h : AllBrought p) {server : IServer js.Num}
    (h_server : Brought p.imported server.vars) : AllBrought (p.updateServer server) := by
  refine ⟨fun row h_row => ?_, h.instances⟩
  obtain ⟨old, h_old, rfl⟩ := List.mem_map.mp h_row
  split
  · exact h_server.storedRecord
  · exact h.servers old h_old

theorem AllBrought.setConfig (h : AllBrought p) {server : IServer js.Num}
    (h_server : Brought p.imported server.vars) : AllBrought (p.setConfig server) := by
  refine ⟨h.servers, fun i h_i => ?_⟩
  obtain ⟨old, h_old, rfl⟩ := List.mem_map.mp h_i
  split
  · exact h_server.storedRecord
  · exact h.instances old h_old

/-- Instances that leave the registry keep their configuration. -/
theorem AllBrought.unregister (h : AllBrought p) (id : Text) :
    ∀ i ∈ p.instances.map (fun i => if i.config.id = id then { i with registered := false } else i),
      Brought p.imported i.config.vars := by
  intro i h_i
  obtain ⟨old, h_old, rfl⟩ := List.mem_map.mp h_i
  split
  · exact h.instances old h_old
  · exact h.instances old h_old

theorem AllBrought.findById (h : AllBrought p) {id : Text} {server : IServer js.Num}
    (h_server : p.findById id = some server) : Brought p.imported server.vars :=
  h.servers server (List.mem_of_find?_eq_some h_server)

theorem AllBrought.create (h : AllBrought p) {id : Text} {props : NewServerProps js.Num}
    {setting : ServerRuntimeSetting} {dockerAvailable : Bool}
    (h_p : p.create id props setting dockerAvailable = some p') : AllBrought p' := by
  unfold Panel.create at h_p
  split at h_p
  · cases h_p
  · split at h_p
    · cases h_p
    · rename_i vars h_vars
      split at h_p
      · cases h_p
      · split at h_p
        · cases h_p
        · exact h.insertServer ((validateVariables_ok h_vars).1.brought _) h_p

theorem AllBrought.updateServerSettings (h : AllBrought p) {id : Text} {name : Option Text}
    {updates : Option (Record (JsonValue js.Num))}
    (h_p : p.updateServerSettings id name updates = some p') : AllBrought p' := by
  unfold Panel.updateServerSettings at h_p
  split at h_p
  · cases h_p
  · rename_i server h_server
    have h_old := h.findById h_server
    split at h_p
    · cases h_p
    · split at h_p
      · cases h_p
        refine (h.updateServer ?_).setConfig ?_
        · exact h_old
        · exact h_old
      · simp only at h_p
        split at h_p
        · cases h_p
        · split at h_p
          · cases h_p
          · rename_i vars h_vars
            cases h_p
            have h_new : Brought p.imported vars := (validateVariables_ok h_vars).1.brought _
            refine (h.updateServer ?_).setConfig ?_
            · exact h_new
            · exact h_new

theorem AllBrought.changeCore (h : AllBrought p) {id blueprintId : Text}
    {version : Option Text} {customCoreFile : Bool}
    (h_p : p.changeCore id blueprintId version customCoreFile = some p') : AllBrought p' := by
  unfold Panel.changeCore at h_p
  split at h_p
  · cases h_p
  · split at h_p
    · cases h_p
    · split at h_p
      · cases h_p
      · split at h_p
        · cases h_p
        · split at h_p
          · cases h_p
          · rename_i vars h_vars
            cases h_p
            have h_new : Brought p.imported vars := (validateVariables_ok h_vars).1.brought _
            exact ⟨(h.updateServer h_new).servers, h.unregister id⟩

theorem AllBrought.duplicateServer (h : AllBrought p) {sourceId newName id : Text}
    (h_p : p.duplicateServer sourceId newName id = some p') : AllBrought p' := by
  unfold Panel.duplicateServer at h_p
  split at h_p
  · cases h_p
  · rename_i source h_source
    simp only at h_p
    split at h_p
    · cases h_p
    · have h_old := h.findById h_source
      refine h.insertServer ?_ h_p
      exact h_old

theorem AllBrought.importServer (h : AllBrought p) {overrideName : Option Text}
    {manifest : ExportManifest js.Num} {id : Text}
    (h_p : p.importServer overrideName manifest id = some p') : AllBrought p' := by
  simp only [Panel.importServer] at h_p
  split at h_p
  · cases h_p
  · split at h_p
    · cases h_p
    · split at h_p
      · cases h_p
      · split at h_p
        · cases h_p
        · have h_more : AllBrought
              { p with imported := p.imported ++ importedVariables manifest } :=
            ⟨fun server h_server => (h.servers server h_server).mono,
              fun i h_i => (h.instances i h_i).mono⟩
          refine h_more.insertServer ?_ h_p
          exact brought_ofFields _ _

theorem AllBrought.ensureInstance (h : AllBrought p) {id : Text}
    (h_p : p.ensureInstance id = some p') : AllBrought p' := by
  unfold Panel.ensureInstance at h_p
  split at h_p
  · cases h_p
  · rename_i server h_server
    split at h_p
    · cases h_p
      exact h
    · cases h_p
      refine ⟨h.servers, fun i h_i => ?_⟩
      rcases List.mem_append.mp h_i with h_i | h_i
      · exact h.instances i h_i
      · rw [List.mem_singleton.mp h_i]
        exact h.findById h_server

theorem step_launch (host : Host js.Num) (p : Panel js.Num) (java : JavaService) (n : Nat) :
    (machine host).step p (.launch java n) = p.launch host java n := rfl

/-- A launch is logged and changes nothing else. -/
theorem launch_inv {host : Host js.Num} {java : JavaService} {n : Nat}
    (h_p : p.launch host java n = some p') :
    ∃ i l, p.instances[n]? = some i ∧ launchNative host java i = .ok l ∧
      p' = { p with launched := p.launched ++ [l] } := by
  unfold Panel.launch at h_p
  split at h_p
  · cases h_p
  · rename_i i h_i
    split at h_p
    · cases h_p
    · split at h_p
      · cases h_p
      · rename_i l h_l
        cases h_p
        exact ⟨i, l, h_i, h_l, rfl⟩

theorem AllBrought.step {host : Host js.Num} (h : AllBrought p) {e : Event js}
    (h_p : Launch.step host p e = some p') : AllBrought p' := by
  cases e with
  | setBlueprint id blueprint =>
    cases h_p
    exact ⟨h.servers, h.instances⟩
  | create id props setting dockerAvailable => exact h.create h_p
  | updateServerSettings id name updates => exact h.updateServerSettings h_p
  | changeCore id blueprintId version customCoreFile => exact h.changeCore h_p
  | duplicateServer sourceId newName id => exact h.duplicateServer h_p
  | importServer overrideName manifest id => exact h.importServer h_p
  | deleteServer id =>
    cases h_p
    exact ⟨fun server h_server => h.servers server (List.mem_filter.mp h_server).1,
      h.unregister id⟩
  | ensureInstance id => exact h.ensureInstance h_p
  | launch java n =>
    obtain ⟨i, l, -, -, rfl⟩ := launch_inv h_p
    exact ⟨h.servers, h.instances⟩

/-! ### The log -/

theorem insertServer_launched {server : IServer js.Num}
    (h_p : p.insertServer server = some p') : p'.launched = p.launched := by
  unfold Panel.insertServer at h_p
  split at h_p
  · cases h_p
  · cases h_p
    rfl

theorem create_launched {id : Text} {props : NewServerProps js.Num}
    {setting : ServerRuntimeSetting} {dockerAvailable : Bool}
    (h_p : p.create id props setting dockerAvailable = some p') :
    p'.launched = p.launched := by
  unfold Panel.create at h_p
  repeat' split at h_p
  all_goals first
    | exact insertServer_launched h_p
    | cases h_p

theorem updateServerSettings_launched {id : Text} {name : Option Text}
    {updates : Option (Record (JsonValue js.Num))}
    (h_p : p.updateServerSettings id name updates = some p') : p'.launched = p.launched := by
  simp only [Panel.updateServerSettings] at h_p
  repeat' split at h_p
  all_goals cases h_p
  all_goals rfl

theorem changeCore_launched {id blueprintId : Text} {version : Option Text}
    {customCoreFile : Bool}
    (h_p : p.changeCore id blueprintId version customCoreFile = some p') :
    p'.launched = p.launched := by
  unfold Panel.changeCore at h_p
  repeat' split at h_p
  all_goals cases h_p
  all_goals rfl

theorem duplicateServer_launched {sourceId newName id : Text}
    (h_p : p.duplicateServer sourceId newName id = some p') : p'.launched = p.launched := by
  simp only [Panel.duplicateServer] at h_p
  repeat' split at h_p
  all_goals first
    | exact insertServer_launched h_p
    | cases h_p

theorem importServer_launched {overrideName : Option Text} {manifest : ExportManifest js.Num}
    {id : Text} (h_p : p.importServer overrideName manifest id = some p') :
    p'.launched = p.launched := by
  simp only [Panel.importServer] at h_p
  repeat' split at h_p
  all_goals try cases h_p
  have h_log := insertServer_launched h_p
  exact h_log

theorem ensureInstance_launched {id : Text} (h_p : p.ensureInstance id = some p') :
    p'.launched = p.launched := by
  unfold Panel.ensureInstance at h_p
  repeat' split at h_p
  all_goals cases h_p
  all_goals rfl

/-- Only a launch writes to the log. -/
theorem launched_step {host : Host js.Num} {e : Event js}
    (h_p : Launch.step host p e = some p') :
    p'.launched = p.launched ∨
      ∃ java n i l, e = .launch java n ∧ p.instances[n]? = some i ∧
        launchNative host java i = .ok l ∧ p'.launched = p.launched ++ [l] := by
  cases e with
  | setBlueprint id blueprint =>
    cases h_p
    exact .inl rfl
  | create id props setting dockerAvailable => exact .inl (create_launched h_p)
  | updateServerSettings id name updates => exact .inl (updateServerSettings_launched h_p)
  | changeCore id blueprintId version customCoreFile => exact .inl (changeCore_launched h_p)
  | duplicateServer sourceId newName id => exact .inl (duplicateServer_launched h_p)
  | importServer overrideName manifest id => exact .inl (importServer_launched h_p)
  | deleteServer id =>
    cases h_p
    exact .inl rfl
  | ensureInstance id => exact .inl (ensureInstance_launched h_p)
  | launch java n =>
    obtain ⟨i, l, h_i, h_l, rfl⟩ := launch_inv h_p
    exact .inr ⟨java, n, i, l, rfl, h_i, h_l, rfl⟩

end Panel

/-! ## Runs -/

/-- The launch about to be made has no gap. -/
def NoGapLaunch (host : Host js.Num) : Guard (Panel js.Num) (Event js)
  | p, .launch java n =>
      ∀ i l, p.instances[n]? = some i → launchNative host java i = .ok l → l.NoGap
  | _, _ => True

/-- Every launch in the log was checked. -/
def AllChecked (p : Panel js.Num) : Prop := ∀ l ∈ p.launched, l.Checked

theorem AllChecked.step {host : Host js.Num} {p p' : Panel js.Num} {e : Event js}
    (h : AllChecked p) (h_gap : NoGapLaunch host p e)
    (h_p : Launch.step host p e = some p') : AllChecked p' := by
  intro l h_l
  rcases Panel.launched_step h_p with h_same | ⟨java, n, i, l', rfl, h_i, h_launch, h_log⟩
  · rw [h_same] at h_l
    exact h l h_l
  · rw [h_log] at h_l
    rcases List.mem_append.mp h_l with h_l | h_l
    · exact h l h_l
    · rw [List.mem_singleton.mp h_l]
      exact (checked_iff_noGap (launchNative_ok h_launch)).mpr (h_gap i l' h_i h_launch)

/-- In a run without gaps every launched command was checked. In any run a launch is
    checked exactly when it has no gap, and the arrays and objects that make one up are
    those that archives brought. -/
theorem launchedChecked_of_reachable (host : Host js.Num) :
    (∀ p, (machine host).ReachableUnder (NoGapLaunch host) p → AllChecked p) ∧
    ∀ p, (machine host).Reachable p →
      (∀ java i l, i ∈ p.instances → launchNative host java i = .ok l →
        (l.Checked ↔ l.NoGap)) ∧
      Panel.AllBrought p := by
  refine ⟨fun p h_p => ?_, fun p h_p => ⟨?_, ?_⟩⟩
  · refine Machine.ReachableUnder.invariant (fun p h_init => ?_) ?_ h_p
    · rw [show p = {} from h_init]
      intro l h_l
      cases h_l
    · intro p e p' h_checked h_gap h_step
      exact h_checked.step h_gap h_step
  · intro java i l _ h_launch
    exact checked_iff_noGap (launchNative_ok h_launch)
  · refine Machine.Reachable.invariant (fun p h_init => ?_) ?_ h_p
    · rw [show p = {} from h_init]
      exact Panel.allBrought_empty
    · intro p e p' h_brought h_step
      exact h_brought.step h_step

/-! ## An archive with an array -/

/-- A Linux host without Java of its own. -/
def linuxHost : Host Numbers.naturals.Num where
  platform := "linux".toList
  resolve path := "/opt/kubek/".toList ++ path.drop 2

def noJava : JavaService where
  resolveJavaBinary _ := none
  getManagedJavaPath _ := none

/-- A core that lets its users add arguments. -/
def jvmArgsBlueprint : KubekBlueprintManifest Numbers.naturals.Num where
  id := "core".toList
  vars := [{ key := "JVM_ARGS".toList, default := some (.str []) }]
  ports := []
  startup := some { command := some "java \x7b\x7bJVM_ARGS\x7d\x7d -jar server.jar".toList }

/-- An archive is imported, and an instance is made for the server. -/
def importArchive (jvmArgs : JsonValue Numbers.naturals.Num) : List (Event Numbers.naturals) :=
  [ .setBlueprint "core".toList (some { manifest := jvmArgsBlueprint }),
    .importServer none
      { name := some "a".toList, blueprintId := some "core".toList
        vars := some (.obj [("JVM_ARGS".toList, jvmArgs)]) } "s1".toList,
    .ensureInstance "s1".toList ]

/-- An archive with a string and nothing to hide. -/
def importedPlain : Panel Numbers.naturals.Num :=
  ((machine linuxHost).run {} (importArchive (.str "-Xmx2G".toList))).get (by decide +kernel)

theorem importedPlain_noGap : NoGapLaunch linuxHost importedPlain (.launch noJava 0) := by
  intro i l h_i h_l
  have h_checked : ∀ i ∈ importedPlain.instances,
      ∀ l ∈ (launchNative linuxHost noJava i).toOption, l.Checked := by decide +kernel
  have h_mem : l ∈ (launchNative linuxHost noJava i).toOption := by rw [h_l]; rfl
  have h_l' := h_checked i (List.mem_of_getElem? h_i) l h_mem
  exact (checked_iff_noGap (launchNative_ok h_l)).mp h_l'

def startedPlain : Panel Numbers.naturals.Num :=
  (importedPlain.launch linuxHost noJava 0).get (by decide +kernel)

theorem launchedChecked_plain : AllChecked startedPlain ∧ Panel.AllBrought startedPlain := by
  have h_imported : (machine linuxHost).ReachableUnder (NoGapLaunch linuxHost) importedPlain := by
    refine (machine linuxHost).reachableUnder_of_run _ ?_ (.init rfl) (Option.some_get _).symm
    intro e h_e p
    simp only [importArchive, List.mem_cons, List.not_mem_nil, or_false] at h_e
    rcases h_e with rfl | rfl | rfl <;> exact True.intro
  have h_under : (machine linuxHost).ReachableUnder (NoGapLaunch linuxHost) startedPlain := by
    have h_launch : importedPlain.launch linuxHost noJava 0 = some startedPlain := by
      rw [startedPlain, Option.some_get]
    have h_step := (Panel.step_launch linuxHost importedPlain noJava 0).trans h_launch
    exact .step h_imported importedPlain_noGap h_step
  have h_reach : (machine linuxHost).Reachable startedPlain :=
    h_under.mono fun _ _ _ => trivial
  obtain ⟨h_checked, h_brought⟩ := launchedChecked_of_reachable linuxHost
  exact ⟨h_checked startedPlain h_under, (h_brought startedPlain h_reach).2⟩

/-- The text of an array goes into the command as it is. -/
def startedArray : Panel Numbers.naturals.Num :=
  ((machine linuxHost).run {}
    (importArchive (.arr [.str "; id #".toList]) ++ [.launch noJava 0])).get (by decide +kernel)

theorem imported_array_runs_unchecked :
    ¬ ∀ (js : Numbers) (host : Host js.Num) (p : Panel js.Num),
        (machine host).Reachable p → ∀ l ∈ p.launched, l.Checked := by
  intro h
  have h_reach : (machine linuxHost).Reachable startedArray :=
    (machine linuxHost).reachable_of_run _ (.init rfl) (Option.some_get _).symm
  have h_unchecked : ¬ ∀ l ∈ startedArray.launched, l.Checked := by decide +kernel
  exact h_unchecked (h _ _ _ h_reach)

end Checked

end Kubek.Launch
