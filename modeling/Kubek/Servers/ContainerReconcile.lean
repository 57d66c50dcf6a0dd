/-
  Kubek.Servers.ContainerReconcile

  What to do on boot with the containers the daemon still has
  (server-types/runtime/container-reconcile.ts).

  A container is the panel's by its labels, or by its name when it is from before there
  were labels, and its data folder has to be the panel's as well. The branch for a server
  the panel does not know asks neither for the folder nor for a container that is paused
  or restarting: it removes all that is not running. `touchesOnlyOwn_iff` says that this
  is the only way to touch what is not the panel's, and what it means for a copied panel
  that shares its id with the original.
-/

import Kubek.Core.Paths
import Kubek.Core.ServerLocks

namespace Kubek.Servers

open Paths

/-! ## Rows -/

def labelManaged : String := "kubek.managed"

def labelServer : String := "kubek.server"

def labelPanel : String := "kubek.panel"

def labelDir : String := "kubek.dir"

/-- An object with text values; reading a key finds its first entry. -/
abbrev Labels := List (String × String)

/-- A mount, by its `Source`. -/
structure ContainerMount where
  source : Option String
  deriving DecidableEq, Repr

/-- `ContainerRow`. -/
structure ContainerRow where
  id : String
  names : List String
  state : String
  labels : Labels
  mounts : List ContainerMount
  deriving DecidableEq, Repr

/-- The map of known servers to the host path of their data folder. -/
abbrev ServerDirs := List (ServerId × String)

/-- `containerNameFor`. -/
def containerNameFor (serverId : ServerId) : String := "kubek-" ++ serverId

/-- `containerLabels`. -/
def containerLabels (serverId : ServerId) (panelId : String) (hostDir : Option String) :
    Labels :=
  [(labelManaged, "true"), (labelServer, serverId), (labelPanel, panelId)] ++
    match hostDir with
    | some dir => if dir ≠ "" then [(labelDir, dir)] else []
    | none => []

inductive ReconcileAction
  | adopt (serverId : ServerId) (containerId : String)
  | remove (serverId : ServerId) (containerId : String)
  | skip (serverId : ServerId) (containerId : String) (reason : String)
  deriving DecidableEq, Repr

/-! ## Reconciliation -/

/-- `samePath`. -/
def samePath (a b : String) : Bool :=
  stripSlashes (normalize a) = stripSlashes (normalize b)

/-- The characters that `.` of a pattern does not match. -/
def isLineEnd (c : Char) : Bool :=
  c = '\n' || c = '\r' || c = '\u2028' || c = '\u2029'

/-- `/^\/kubek-(.+)$/`, as its group. -/
def nameMatch (name : String) : Option ServerId :=
  if "/kubek-".toList.isPrefixOf name.toList then
    let rest := name.toList.drop "/kubek-".length
    if rest = [] ∨ rest.any isLineEnd then none else some (String.ofList rest)
  else none

/-- `ownerOf`. -/
def ownerOf (row : ContainerRow) (panelId : String) (serverDirs : ServerDirs) :
    Option ServerId :=
  match row.labels.lookup labelManaged with
  | some managed =>
      if managed ≠ "true" then none
      else if row.labels.lookup labelPanel ≠ some panelId then none
      else
        match row.labels.lookup labelServer with
        | some serverId =>
            if serverId = "" then none
            else if "/" ++ containerNameFor serverId ∈ row.names then some serverId
            else none
        | none => none
  | none =>
      row.names.findSome? fun name =>
        (nameMatch name).filter fun serverId => (serverDirs.lookup serverId).isSome

/-- The folder of the container is `dir`: its label says so, or one of its mounts where there
    is no label. -/
def ownDir (row : ContainerRow) (dir : String) : Bool :=
  match (row.labels.lookup labelDir).filter (· ≠ "") with
  | some labeled => samePath labeled dir
  | none => row.mounts.any fun m => m.source.any fun source => source ≠ "" && samePath source dir

/-- The data folder of a server the panel knows. -/
def folderOf (serverDirs : ServerDirs) (serverId : ServerId) : Option String :=
  (serverDirs.lookup serverId).filter (· ≠ "")

/-- The body of the loop of `reconcileContainers`. -/
def reconcileRow (panelId : String) (serverDirs : ServerDirs) (row : ContainerRow) :
    Option ReconcileAction :=
  match ownerOf row panelId serverDirs with
  | none => none
  | some serverId =>
      match folderOf serverDirs serverId with
      | none =>
          -- ours, but the server is gone
          if row.state = "running" then some (.skip serverId row.id "server not found")
          else some (.remove serverId row.id)
      | some dir =>
          if ownDir row dir then
            if row.state = "running" then some (.adopt serverId row.id)
            else if row.state = "paused" ∨ row.state = "restarting" then
              some (.skip serverId row.id ("state " ++ row.state))
            else some (.remove serverId row.id)
          else some (.skip serverId row.id "data mount points elsewhere")

/-- `reconcileContainers`. -/
def reconcileContainers (rows : List ContainerRow) (panelId : String)
    (serverDirs : ServerDirs) : List ReconcileAction :=
  rows.filterMap (reconcileRow panelId serverDirs)

/-! ## What is the panel's -/

/-- The container carries the labels of this panel for the server, or it has no labels and
    the name of a server that the panel knows. -/
def Ours (row : ContainerRow) (panelId : String) (serverDirs : ServerDirs)
    (serverId : ServerId) : Prop :=
  (row.labels.lookup labelManaged = some "true" ∧ row.labels.lookup labelPanel = some panelId ∧
    row.labels.lookup labelServer = some serverId) ∨
  (row.labels.lookup labelManaged = none ∧ "/" ++ containerNameFor serverId ∈ row.names ∧
    (serverDirs.lookup serverId).isSome = true)

/-- The container and its data folder are the panel's. -/
structure Own (row : ContainerRow) (panelId : String) (serverDirs : ServerDirs)
    (serverId : ServerId) : Prop where
  ours : Ours row panelId serverDirs serverId
  folder : ∃ dir, serverDirs.lookup serverId = some dir ∧ dir ≠ "" ∧ ownDir row dir = true

/-- What has to hold of a row for the panel to adopt or remove its container. -/
def Justified (row : ContainerRow) (panelId : String) (serverDirs : ServerDirs) :
    ReconcileAction → Prop
  | .adopt serverId _ => row.state = "running" ∧ Own row panelId serverDirs serverId
  | .remove serverId _ =>
      row.state ≠ "running" ∧ row.state ≠ "paused" ∧ row.state ≠ "restarting" ∧
        Own row panelId serverDirs serverId
  | .skip _ _ _ => True

/-- Every action on the rows is justified by the rows it comes from. -/
def TouchesOnlyOwn (rows : List ContainerRow) (panelId : String) (serverDirs : ServerDirs) :
    Prop :=
  ∀ action ∈ reconcileContainers rows panelId serverDirs, ∀ row ∈ rows,
    reconcileRow panelId serverDirs row = some action → Justified row panelId serverDirs action

/-- The labels of this panel for a server it does not know, on a container that is not
    running. -/
def idleOrphan (row : ContainerRow) (panelId : String) (serverDirs : ServerDirs) : Bool :=
  (ownerOf row panelId serverDirs).any fun serverId =>
    (folderOf serverDirs serverId).isNone && row.state ≠ "running"

section

variable {row : ContainerRow} {panelId : String} {serverDirs : ServerDirs} {serverId : ServerId}

/-- A name the pattern matches is the one a server's container has. -/
theorem eq_of_nameMatch {name : String} (h : nameMatch name = some serverId) :
    name = "/" ++ containerNameFor serverId := by
  simp only [nameMatch] at h
  split at h
  · rename_i h_pre
    split at h
    · cases h
    · cases h
      obtain ⟨rest, h_rest⟩ := List.isPrefixOf_iff_prefix.mp h_pre
      have h_length : "/kubek-".length = "/kubek-".toList.length := rfl
      apply String.toList_inj.mp
      rw [h_length, ← h_rest, List.drop_left]
      simp [containerNameFor]
  · cases h

/-- `ownerOf` answers only for what is ours. -/
theorem ours_of_ownerOf (h : ownerOf row panelId serverDirs = some serverId) :
    Ours row panelId serverDirs serverId := by
  simp only [ownerOf] at h
  split at h
  · rename_i managed h_managed
    split at h
    · cases h
    · rename_i h_true
      split at h
      · cases h
      · rename_i h_panel
        split at h
        · rename_i labeled h_server
          split at h
          · cases h
          · split at h
            · cases h
              exact .inl ⟨by simpa [h_managed] using h_true, by simpa using h_panel, h_server⟩
            · cases h
        · cases h
  · rename_i h_unlabeled
    obtain ⟨name, h_name, h_match⟩ := List.exists_of_findSome?_eq_some h
    obtain ⟨h_eq, h_known⟩ := Option.filter_eq_some_iff.mp h_match
    exact .inr ⟨h_unlabeled, eq_of_nameMatch h_eq ▸ h_name, h_known⟩

/-- Where the panel knows the server, its action is justified. -/
theorem justified_of_folder {dir : String} {action : ReconcileAction}
    (h_owner : ownerOf row panelId serverDirs = some serverId)
    (h_dir : folderOf serverDirs serverId = some dir)
    (h : reconcileRow panelId serverDirs row = some action) :
    Justified row panelId serverDirs action := by
  obtain ⟨h_lookup, h_ne⟩ := Option.filter_eq_some_iff.mp h_dir
  have h_own : ownDir row dir = true → Own row panelId serverDirs serverId := fun h_folder =>
    ⟨ours_of_ownerOf h_owner, dir, h_lookup, by simpa using h_ne, h_folder⟩
  simp only [reconcileRow, h_owner, h_dir] at h
  split at h
  · rename_i h_folder
    split at h
    · rename_i h_running
      cases h
      exact ⟨h_running, h_own h_folder⟩
    · rename_i h_running
      split at h
      · cases h
        trivial
      · rename_i h_other
        cases h
        exact ⟨h_running, fun h_eq => h_other (.inl h_eq), fun h_eq => h_other (.inr h_eq),
          h_own h_folder⟩
  · cases h
    trivial

/-- A row that is not an idle orphan is acted on with a reason. -/
theorem justified_of_not_idleOrphan {action : ReconcileAction}
    (h_idle : idleOrphan row panelId serverDirs = false)
    (h : reconcileRow panelId serverDirs row = some action) :
    Justified row panelId serverDirs action := by
  cases h_owner : ownerOf row panelId serverDirs with
  | none => simp [reconcileRow, h_owner] at h
  | some serverId =>
    cases h_dir : folderOf serverDirs serverId with
    | some dir => exact justified_of_folder h_owner h_dir h
    | none =>
      have h_running : row.state = "running" := by simpa [idleOrphan, h_owner, h_dir] using h_idle
      simp only [reconcileRow, h_owner, h_dir, h_running, if_true] at h
      cases h
      trivial

/-- An idle orphan is removed, and nothing says whose its data folder is. -/
theorem removes_idleOrphan (h : idleOrphan row panelId serverDirs = true) :
    ∃ serverId, reconcileRow panelId serverDirs row = some (.remove serverId row.id) ∧
      ¬ Own row panelId serverDirs serverId := by
  obtain ⟨serverId, h_owner, h_rest⟩ := Option.any_eq_true _ _ |>.mp h
  obtain ⟨h_none, h_state⟩ := Bool.and_eq_true_iff.mp h_rest
  have h_dir := Option.isNone_iff_eq_none.mp h_none
  refine ⟨serverId, ?_, ?_⟩
  · have h_not : row.state ≠ "running" := by simpa using h_state
    simp only [reconcileRow, h_owner, h_dir, if_neg h_not]
  · rintro ⟨-, dir, h_lookup, h_ne, -⟩
    simp [folderOf, h_lookup, h_ne] at h_dir

/-- One panel. -/
theorem touchesOnlyOwn_iff_idleOrphan {rows : List ContainerRow} :
    TouchesOnlyOwn rows panelId serverDirs ↔
      ∀ row ∈ rows, idleOrphan row panelId serverDirs = false := by
  constructor
  · intro h row h_row
    by_contra h_idle
    obtain ⟨serverId, h_remove, h_not⟩ := removes_idleOrphan (by simpa using h_idle)
    have h_mem : ReconcileAction.remove serverId row.id ∈
        reconcileContainers rows panelId serverDirs :=
      List.mem_filterMap.mpr ⟨row, h_row, h_remove⟩
    exact h_not (h _ h_mem row h_row h_remove).2.2.2
  · intro h action _ row h_row h_action
    exact justified_of_not_idleOrphan (h row h_row) h_action

end

/-! ## Two panels -/

/-- An install of the panel: its id, where the daemon finds its data folders, and the servers
    it knows. -/
structure Panel where
  id : String
  hostDir : ServerId → String
  rooted : ∀ serverId, hostDir serverId ≠ ""
  known : List ServerId

namespace Panel

def serverDirs (p : Panel) : ServerDirs := p.known.map fun serverId => (serverId, p.hostDir serverId)

theorem folderOf_serverDirs (p : Panel) (serverId : ServerId) :
    folderOf p.serverDirs serverId = if serverId ∈ p.known then some (p.hostDir serverId) else none := by
  have h_lookup : ∀ known : List ServerId,
      (known.map fun serverId => (serverId, p.hostDir serverId)).lookup serverId =
        if serverId ∈ known then some (p.hostDir serverId) else none := by
    intro known
    induction known with
    | nil => rfl
    | cons first rest ih =>
      by_cases h_eq : serverId = first
      · simp [h_eq]
      · have h_beq : (serverId == first) = false := by simpa using h_eq
        simp [List.lookup_cons, h_beq, h_eq, ih]
  rw [folderOf, serverDirs, h_lookup]
  by_cases h_known : serverId ∈ p.known
  · simp [h_known, p.rooted]
  · simp [h_known]

/-- A container as the panel creates it for the server, in whatever state it is now. -/
structure Created (p : Panel) (serverId : ServerId) (row : ContainerRow) : Prop where
  named : "/" ++ containerNameFor serverId ∈ row.names
  labels : row.labels = containerLabels serverId p.id (some (p.hostDir serverId))

/-- The panel neither adopts nor removes the container. -/
def LeavesAlone (p : Panel) (row : ContainerRow) : Prop :=
  ∀ action ∈ reconcileContainers [row] p.id p.serverDirs,
    ∃ serverId reason, action = .skip serverId row.id reason

end Panel

/-- A copied panel: the same id, and another data folder for the server. -/
structure CopyOf (a b : Panel) (serverId : ServerId) : Prop where
  id : a.id = b.id
  apart : samePath (a.hostDir serverId) (b.hostDir serverId) = false

section

variable {a b : Panel} {serverId : ServerId} {row : ContainerRow}

theorem ownerOf_created (h : a.Created serverId row) (h_id : serverId ≠ "")
    (serverDirs : ServerDirs) : ownerOf row a.id serverDirs = some serverId := by
  have h_named := h.named
  have h_managed : row.labels.lookup labelManaged = some "true" := by rw [h.labels]; rfl
  have h_panel : row.labels.lookup labelPanel = some a.id := by rw [h.labels]; rfl
  have h_server : row.labels.lookup labelServer = some serverId := by rw [h.labels]; rfl
  simp only [ownerOf, h_managed, h_panel, h_server, h_id, h_named]
  simp

theorem ownDir_created (h : a.Created serverId row) (dir : String) :
    ownDir row dir = samePath (a.hostDir serverId) dir := by
  have h_rooted : (a.hostDir serverId ≠ "") = True := by simp [a.rooted]
  have h_dir : row.labels.lookup labelDir = some (a.hostDir serverId) := by
    rw [h.labels, containerLabels]
    simp only [h_rooted, if_true]
    rfl
  have h_filter : (row.labels.lookup labelDir).filter (· ≠ "") = some (a.hostDir serverId) := by
    rw [h_dir, Option.filter_eq_some_iff]
    exact ⟨rfl, by simpa using a.rooted serverId⟩
  rw [ownDir, h_filter]

/-- What a copy of the panel does with a container of the original. -/
theorem leavesAlone_iff (h_copy : CopyOf a b serverId) (h : a.Created serverId row) (h_id : serverId ≠ "") :
    b.LeavesAlone row ↔ serverId ∈ b.known ∨ row.state = "running" := by
  have h_owner : ownerOf row b.id b.serverDirs = some serverId := by
    rw [← h_copy.id]
    exact ownerOf_created h h_id _
  have h_foreign : ownDir row (b.hostDir serverId) = false := by
    rw [ownDir_created h]
    exact h_copy.apart
  have h_action : reconcileRow b.id b.serverDirs row =
      if serverId ∈ b.known then some (.skip serverId row.id "data mount points elsewhere")
      else if row.state = "running" then some (.skip serverId row.id "server not found")
      else some (.remove serverId row.id) := by
    by_cases h_known : serverId ∈ b.known
    · simp [reconcileRow, h_owner, Panel.folderOf_serverDirs, h_known, h_foreign]
    · simp [reconcileRow, h_owner, Panel.folderOf_serverDirs, h_known]
  by_cases h_known : serverId ∈ b.known
  · simp [Panel.LeavesAlone, reconcileContainers, h_action, h_known]
  · by_cases h_running : row.state = "running"
    · simp [Panel.LeavesAlone, reconcileContainers, h_action, h_known, h_running]
    · simp [Panel.LeavesAlone, reconcileContainers, h_action, h_known, h_running]

end

/-- **What reconciliation touches.** The panel touches only what is its own exactly when it
    finds no idle container that carries its labels for a server it does not know; and a
    copied panel leaves a container of the original alone exactly when it knows the server
    as well or the container runs. -/
theorem touchesOnlyOwn_iff (rows : List ContainerRow) (panelId : String)
    (serverDirs : ServerDirs) :
    (TouchesOnlyOwn rows panelId serverDirs ↔
      ∀ row ∈ rows, idleOrphan row panelId serverDirs = false) ∧
    (∀ (a b : Panel) (serverId : ServerId) (row : ContainerRow), CopyOf a b serverId →
      a.Created serverId row → serverId ≠ "" →
        (b.LeavesAlone row ↔ serverId ∈ b.known ∨ row.state = "running")) :=
  ⟨touchesOnlyOwn_iff_idleOrphan, fun _ _ _ _ h_copy h h_id => leavesAlone_iff h_copy h h_id⟩

/-! ### A copied panel -/

def original : Panel where
  id := "panel-1"
  hostDir serverId := "/opt/kubek/servers/" ++ serverId
  rooted _ h := by simpa using congrArg String.toList h
  known := ["abc"]

/-- The copy has forgotten the server. -/
def copied : Panel where
  id := "panel-1"
  hostDir serverId := "/home/dev/copy/servers/" ++ serverId
  rooted _ h := by simpa using congrArg String.toList h
  known := []

/-- A container of the original, stopped for the night by a pause. -/
def pausedRow : ContainerRow where
  id := "c1"
  names := ["/kubek-abc"]
  state := "paused"
  labels := containerLabels "abc" "panel-1" (some "/opt/kubek/servers/abc")
  mounts := [⟨some "/opt/kubek/servers/abc"⟩]

/-- The original skips it, and the copy knows better than to touch it while it runs. -/
theorem touchesOnlyOwn_pausedRow :
    TouchesOnlyOwn [pausedRow] original.id original.serverDirs ∧
      copied.LeavesAlone { pausedRow with state := "running" } :=
  ⟨(touchesOnlyOwn_iff _ _ _).1.mpr (by decide +kernel),
    ((touchesOnlyOwn_iff [] "" []).2 original copied "abc" { pausedRow with state := "running" }
      ⟨rfl, by decide +kernel⟩ ⟨by decide +kernel, rfl⟩ (by decide)).mpr (.inr rfl)⟩

/-- Once the copy has forgotten the server it removes the paused container of the original. -/
theorem copied_removes_pausedRow :
    original.Created "abc" pausedRow ∧
      reconcileContainers [pausedRow] copied.id copied.serverDirs = [.remove "abc" "c1"] ∧
      ¬ TouchesOnlyOwn [pausedRow] copied.id copied.serverDirs ∧
      ¬ copied.LeavesAlone pausedRow := by
  have h_removes : reconcileContainers [pausedRow] copied.id copied.serverDirs =
      [.remove "abc" "c1"] := by
    decide +kernel
  have h_created : original.Created "abc" pausedRow := ⟨by decide +kernel, rfl⟩
  refine ⟨h_created, h_removes, ?_, ?_⟩
  · intro h
    have h_mem : ReconcileAction.remove "abc" "c1" ∈
        reconcileContainers [pausedRow] copied.id copied.serverDirs := by
      rw [h_removes]
      exact List.mem_cons_self
    have h_row := h _ h_mem pausedRow List.mem_cons_self (by decide +kernel)
    exact h_row.2.1 rfl
  · intro h
    rw [Panel.LeavesAlone, h_removes] at h
    obtain ⟨serverId, reason, h_eq⟩ := h _ List.mem_cons_self
    cases h_eq

end Kubek.Servers
