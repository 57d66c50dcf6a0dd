/-
  Kubek.Extensions.Consent

  What runs, and what was consented to (extension-manager.service.ts,
  extension-loader.service.ts, context/context.factory.ts).

  Here packages are followed from the upload to the running module: the package a record
  stands for, the one in the folder, and the one whose module a load returns. The process
  keeps the first module of every file (`cache`), so a load after a reinstall returns the old
  one; an install replaces the folder before the record; and an active context keeps the
  capabilities it was built with. Runs that stay clear of these are `careful`, and in them
  only what was consented to runs (`consented_of_reachableUnder`).

  A validated id is a folder name as it is. What an extension does with its context is
  followed in `Kubek.Extensions.Manager`, and left out here.
-/

import Kubek.Core.Paths
import Kubek.Extensions.Manager

namespace Kubek.Extensions.Consent

open FileTree (Path)
open Transition

/-! ## Packages, records, folders -/

/-- An uploaded package. No two uploads are the same. -/
structure Package where
  manifest : Manifest
  /-- `manifest.backend.entry`. -/
  entry : String
  upload : Nat
  deriving DecidableEq

def Package.id (p : Package) : ExtId := p.manifest.id

/-- A row of `extensions`, by the package whose manifest it holds: consent is given for that
    package. -/
structure Stored where
  package : Package
  enabled : Bool
  granted : List Capability
  status : ExtensionStatus
  deriving DecidableEq

def Stored.id (r : Stored) : ExtId := r.package.id

/-- The folder of an extension. -/
inductive Folder
  | missing
  /-- A copy that failed half way. -/
  | broken
  | holds (p : Package)
  deriving DecidableEq

/-- The package a module comes from; none for code that is in no package's folder. -/
abbrev Code := Option Package

/-- `LoadedExtension`: the record it was activated with, and the module that runs. -/
structure Loaded where
  record : Stored
  code : Code
  deriving DecidableEq

/-- What there is of one extension. -/
structure Snapshot where
  record : Option Stored
  folder : Folder
  loaded : Option Loaded
  deriving DecidableEq

/-! ## Work in flight -/

/-- Who awaits `deactivate`. An install remembers what it found. -/
inductive Closer
  | install (p : Package) (found : Snapshot)
  | disable (id : ExtId)
  | remove (id : ExtId)
  deriving DecidableEq

def Closer.id : Closer → ExtId
  | .install p _ => p.id
  | .disable id => id
  | .remove id => id

inductive Task
  /-- `activate`, on the import. -/
  | loading (r : Stored)
  /-- `activate` of the extension. -/
  | running (r : Stored) (code : Code)
  /-- `deactivate` of the extension. -/
  | deactivating (closer : Closer)
  /-- Our `deactivate` is over. -/
  | deactivated (closer : Closer)
  /-- `buildFrontend`. -/
  | building (p : Package) (found : Snapshot)
  | done
  deriving DecidableEq

/-- What a task does with its extension. -/
inductive Kind
  | opens
  | installs
  | disables
  | removes
  deriving DecidableEq

def Closer.kind : Closer → Kind
  | .install _ _ => .installs
  | .disable _ => .disables
  | .remove _ => .removes

/-- The extension a task is about, and what it does with it. -/
def Task.about : Task → Option (ExtId × Kind)
  | .loading r => some (r.id, .opens)
  | .running r _ => some (r.id, .opens)
  | .deactivating closer => some (closer.id, closer.kind)
  | .deactivated closer => some (closer.id, closer.kind)
  | .building p _ => some (p.id, .installs)
  | .done => none

/-- An install that failed: what it found, and what it left. -/
structure Failure where
  found : Snapshot
  left : Snapshot

structure Panel where
  records : ExtId → Option Stored := fun _ => none
  folders : ExtId → Folder := fun _ => .missing
  loaded : ExtId → Option Loaded := fun _ => none
  /-- The modules of this process, by their files. -/
  cache : Path → Option Code := fun _ => none
  tasks : List Task := []
  /-- The records that `onModuleInit` still has ahead; requests are served once it is over. -/
  boot : Option (List Stored) := none
  failures : List Failure := []

/-! ## Files -/

section Files

variable (cwd : Path)

/-- `ExtensionLoader.dir`. -/
def dir (id : ExtId) : Path := cwd ++ ["extensions", id]

/-- `join(dir, entry)`. -/
def moduleFile (id : ExtId) (entry : String) : Path :=
  Paths.resolveFrom (dir cwd id) (JsText.split '/' entry)

/-- The extension in whose folder a file is. -/
def ownerOf (file : Path) : Option ExtId :=
  if (cwd ++ ["extensions"]).isPrefixOf file then
    match file.drop (cwd.length + 1) with
    | id :: _ :: _ => some id
    | _ => none
  else none

/-- The code in a file. -/
def codeAt (folders : ExtId → Folder) (file : Path) : Code :=
  match (ownerOf cwd file).map folders with
  | some (.holds p) => some p
  | _ => none

end Files

namespace Panel

def taskAt (s : Panel) (i : Nat) : Task := Suspended.get .done s.tasks i

def snapshot (s : Panel) (id : ExtId) : Snapshot := ⟨s.records id, s.folders id, s.loaded id⟩

def setRecord (s : Panel) (id : ExtId) (r : Option Stored) : Panel :=
  { s with records := Function.update s.records id r }

def setFolder (s : Panel) (id : ExtId) (f : Folder) : Panel :=
  { s with folders := Function.update s.folders id f }

def setLoaded (s : Panel) (id : ExtId) (l : Option Loaded) : Panel :=
  { s with loaded := Function.update s.loaded id l }

/-- A column write, where there is a row. -/
def writeRecord (s : Panel) (id : ExtId) (f : Stored → Stored) : Panel :=
  s.setRecord id ((s.records id).map f)

def fails (s : Panel) (id : ExtId) (found : Snapshot) : Panel :=
  { s with failures := s.failures ++ [⟨found, s.snapshot id⟩] }

/-- `activate` up to its first await; `registers` is false where the permissions it declares are
    refused. -/
def activate (s : Panel) (r : Stored) (registers : Bool) : Panel × Task :=
  if (s.loaded r.id).isSome || !registers then (s, .done)
  else if r.package.manifest.backend then (s, .loading r)
  else
    ((s.setLoaded r.id (some ⟨r, none⟩)).writeRecord r.id fun x => { x with status := .active },
      .done)

/-- `deactivate` up to its first await. -/
def deactivate (s : Panel) (closer : Closer) : Panel × Task :=
  match s.loaded closer.id with
  | some _ => (s, .deactivating closer)
  | none => (s, .deactivated closer)

/-- The record an install leaves. -/
def installed (p : Package) : Stored := ⟨p, false, [], .installed⟩

/-- `installFromBuffer` once the old version is inactive; `copies` is false where the disk
    refuses. -/
def copyFiles (s : Panel) (p : Package) (found : Snapshot) (copies : Bool) : Panel × Task :=
  if !copies then ((s.setFolder p.id .broken).fails p.id found, .done)
  else if p.manifest.frontend then (s.setFolder p.id (.holds p), .building p found)
  else ((s.setFolder p.id (.holds p)).setRecord p.id (some (installed p)), .done)

/-- The caller of `deactivate` goes on. -/
def closerResumes (s : Panel) (copies : Bool) : Closer → Panel × Task
  | .install p found => s.copyFiles p found copies
  | .disable id => (s.writeRecord id fun r => { r with enabled := false, status := .disabled }, .done)
  | .remove id => ((s.setRecord id none).setFolder id .missing, .done)

def push : Panel × Task → Panel
  | (s, t) => { s with tasks := s.tasks ++ [t] }

def resume (i : Nat) : Panel × Task → Panel
  | (s, t) => { s with tasks := s.tasks.set i t }

end Panel

/-! ## Steps -/

/-- The atomic steps; `i` is a task. -/
inductive Event
  /-- The process ends, wherever it is, and starts again; `ids` is the order of `findAll`. -/
  | restart (ids : List ExtId)
  /-- `onModuleInit` activates its next record. -/
  | bootNext (registers : Bool)
  | bootEnds
  /-- An install whose package cannot be unpacked or is not valid. -/
  | rejected (id : ExtId)
  | install (p : Package) (copies : Bool)
  | consent (id : ExtId) (capabilities : List Capability)
  | enable (id : ExtId) (registers : Bool)
  | disable (id : ExtId)
  | remove (id : ExtId)
  | moduleLoads (i : Nat)
  /-- The import fails, or what it returns has no `activate` and stays cached. -/
  | moduleThrows (i : Nat) (cached : Bool)
  | activateReturns (i : Nat)
  | activateThrows (i : Nat)
  | deactivateReturns (i : Nat)
  | closerResumes (i : Nat) (copies : Bool)
  | builds (i : Nat)
  | buildFails (i : Nat)

/-- What a load of the file returns. -/
def Panel.module (cwd : Path) (s : Panel) (r : Stored) : Code :=
  let file := moduleFile cwd r.id r.package.entry
  (s.cache file).getD (codeAt cwd s.folders file)

/-- The module of the record is in the cache. -/
def Panel.remember (cwd : Path) (s : Panel) (r : Stored) : Panel :=
  { s with
    cache := Function.update s.cache (moduleFile cwd r.id r.package.entry) (some (s.module cwd r)) }

open Panel in
/-- The requests. -/
def request (s : Panel) : Event → Option Panel
  | .rejected id => some (s.fails id (s.snapshot id))
  | .install p copies =>
      if (s.loaded p.id).isSome && (s.records p.id).isSome then
        some (push (s.deactivate (.install p (s.snapshot p.id))))
      else some (push (s.copyFiles p (s.snapshot p.id) copies))
  | .consent id capabilities =>
      (s.records id).map fun r => s.setRecord id (some { r with
        granted := capabilities.filter fun c => c ∈ r.package.manifest.requires })
  | .enable id registers =>
      match s.records id with
      | none => none
      | some r =>
          if r.package.manifest.requires.any fun c => c ∉ r.granted then none
          else some (push ((s.setRecord id (some { r with enabled := true })).activate
            { r with enabled := true } registers))
  | .disable id => (s.records id).map fun _ => push (s.deactivate (.disable id))
  | .remove id => (s.records id).map fun _ => push (s.deactivate (.remove id))
  | _ => none

open Panel in
/-- One step. -/
def step (cwd : Path) (s : Panel) : Event → Option Panel
  | .restart ids =>
      if ids.Nodup then
        some { s with
          loaded := fun _ => none
          cache := fun _ => none
          tasks := []
          boot := some ((ids.filterMap s.records).filter fun r => r.enabled && r.status ≠ .error) }
      else none
  | .bootNext registers =>
      match s.boot with
      | some (r :: rest) =>
          if s.tasks.all fun t => t = .done then
            some (push ({ s with boot := some rest }.activate r registers))
          else none
      | _ => none
  | .bootEnds =>
      if s.boot = some [] ∧ s.tasks.all fun t => t = .done then some { s with boot := none } else none
  | .moduleLoads i =>
      match s.taskAt i with
      | .loading r => some (resume i (s.remember cwd r, .running r (s.module cwd r)))
      | _ => none
  | .moduleThrows i cached =>
      match s.taskAt i with
      | .loading r => some (resume i (if cached then s.remember cwd r else s, .done))
      | _ => none
  | .activateReturns i =>
      match s.taskAt i with
      | .running r code =>
          some (resume i ((s.setLoaded r.id (some ⟨r, code⟩)).writeRecord r.id fun x =>
            { x with status := .active }, .done))
      | _ => none
  | .activateThrows i =>
      match s.taskAt i with
      | .running r _ =>
          -- the whole record is stored again, as it was at the start
          some (resume i (s.setRecord r.id (some { r with status := .error }), .done))
      | _ => none
  | .deactivateReturns i =>
      match s.taskAt i with
      | .deactivating closer =>
          some (resume i (s.setLoaded closer.id none, .deactivated closer))
      | _ => none
  | .closerResumes i copies =>
      match s.taskAt i with
      | .deactivated closer => some (resume i (s.closerResumes copies closer))
      | _ => none
  | .builds i =>
      match s.taskAt i with
      | .building p _ => some (resume i (s.setRecord p.id (some (installed p)), .done))
      | _ => none
  | .buildFails i =>
      match s.taskAt i with
      | .building p found => some (resume i (s.fails p.id found, .done))
      | _ => none
  | e => if s.boot.isNone then request s e else none

/-- The runs of a panel in `cwd` on which nothing is installed at first. -/
def machine (cwd : Path) : Machine Panel Event where
  init s := s = {}
  step := step cwd

/-! ## What was consented to -/

/-- The record is stored, is enabled, and grants what these capabilities are. -/
def Honoured (s : Panel) (r : Stored) : Prop :=
  ∃ r', s.records r.id = some r' ∧ r'.enabled = true ∧ r'.package = r.package ∧
    ∀ c ∈ r.granted, c ∈ r'.granted

/-- The module that should run: the package's own, or none of an extension without a
    backend. -/
def ownCode (p : Package) : Code := if p.manifest.backend then some p else none

structure Consented (s : Panel) : Prop where
  /-- An active extension is enabled, its context honours only what is granted and requested,
      and both folder and module are of the package the record stands for. -/
  active : ∀ id l, s.loaded id = some l → ∃ r, s.records id = some r ∧ r.enabled = true ∧
    (∀ c ∈ l.record.granted, c ∈ r.granted ∧ c ∈ r.package.manifest.requires) ∧
    s.folders id = .holds r.package ∧ l.code = ownCode r.package
  /-- A failed install leaves an extension that was there as it was. -/
  failures : ∀ f ∈ s.failures, f.found.record.isSome = true → f.left = f.found

/-! ## Careful runs -/

/-- Two tasks that must not be in flight for one extension. -/
def Kind.conflicts : Kind → Kind → Bool
  | .opens, k => k ≠ .opens
  | k, .opens => k ≠ .opens
  | .installs, k => k = .installs || k = .removes
  | k, .installs => k = .removes
  | _, _ => false

namespace Panel

/-- No task is in the way of one of this kind. -/
def free (s : Panel) (id : ExtId) (k : Kind) : Bool :=
  s.tasks.all fun t =>
    match t.about with
    | some (id', k') => id' ≠ id || !k.conflicts k'
    | none => true

/-- Each context of the extension that is active or about to be honours only these, the one of
    task `i` left out. -/
def keepsGrants (s : Panel) (id : ExtId) (granted : List Capability) (i : Option Nat) : Bool :=
  ((s.loaded id).all fun l => l.record.granted.all fun c => c ∈ granted) &&
    (List.range s.tasks.length).all fun j =>
      some j = i ||
        match s.taskAt j with
        | .loading r => r.id ≠ id || r.granted.all fun c => c ∈ granted
        | .running r _ => r.id ≠ id || r.granted.all fun c => c ∈ granted
        | _ => true

end Panel

/-- Operations on one extension do not overlap, unless neither spoils the other; consent and a
    failed activation take back no capability that a context still honours; a module is loaded
    from its own folder, in a process that has not loaded another package's module from that
    file; and an install neither fails nor is cut off by a restart once it has begun to replace
    an extension that is there. -/
def careful (cwd : Path) (s : Panel) : Event → Bool
  | .restart _ =>
      s.tasks.all fun t =>
        match t with
        | .building p _ => (s.records p.id).isNone
        | _ => true
  | .install p copies =>
      s.free p.id .installs && (copies || (s.loaded p.id).isSome || (s.records p.id).isNone)
  | .consent id capabilities =>
      match s.records id with
      | some r => s.keepsGrants id (capabilities.filter fun c => c ∈ r.package.manifest.requires) none
      | none => true
  | .enable id _ => s.free id .opens
  | .disable id => s.free id .disables
  | .remove id => s.free id .removes
  | .moduleLoads i =>
      match s.taskAt i with
      | .loading r =>
          let file := moduleFile cwd r.id r.package.entry
          ownerOf cwd file = some r.id &&
            (s.cache file).all fun code => code = some r.package
      | _ => true
  | .activateThrows i =>
      match s.taskAt i with
      | .running r _ => s.keepsGrants r.id r.granted (some i)
      | _ => true
  | .closerResumes i copies =>
      match s.taskAt i with
      | .deactivated (.install p _) => copies || (s.records p.id).isNone
      | _ => true
  | .buildFails i =>
      match s.taskAt i with
      | .building p _ => (s.records p.id).isNone
      | _ => true
  | _ => true

/-! ## What careful runs keep -/

/-- An install that found an extension still has its record. -/
def KeepsFound (s : Panel) (p : Package) (found : Snapshot) : Prop :=
  found.record.isSome = true → (s.records p.id).isSome = true

def Closer.Ok (s : Panel) : Closer → Prop
  | .install p found => KeepsFound s p found
  | _ => True

def Task.Ok (s : Panel) : Task → Prop
  | .loading r => Honoured s r ∧ r.enabled = true ∧ r.package.manifest.backend = true
  | .running r code => Honoured s r ∧ r.enabled = true ∧ r.package.manifest.backend = true ∧
      code = some r.package
  | .deactivating closer => closer.Ok s
  | .deactivated closer => closer.Ok s ∧ s.loaded closer.id = none
  | .building p found => KeepsFound s p found ∧ s.loaded p.id = none ∧ s.folders p.id = .holds p
  | .done => True

/-- What holds of one extension. -/
structure IdOk (s : Panel) (id : ExtId) : Prop where
  row : ∀ r, s.records id = some r → r.id = id ∧ ∀ c ∈ r.granted, c ∈ r.package.manifest.requires
  folder : ∀ r, s.records id = some r → s.folders id = .holds r.package ∨
    ∃ i p found, s.taskAt i = .building p found ∧ p.id = id
  active : ∀ l, s.loaded id = some l → l.record.id = id ∧ Honoured s l.record ∧
    l.code = ownCode l.record.package
  tasks : ∀ i k, (s.taskAt i).about = some (id, k) → (s.taskAt i).Ok s
  apart : ∀ i j k k', i ≠ j → (s.taskAt i).about = some (id, k) →
    (s.taskAt j).about = some (id, k') → k.conflicts k' = false

/-- What holds while `onModuleInit` has these records ahead. -/
structure BootOk (s : Panel) (rest : List Stored) : Prop where
  honoured : ∀ r ∈ rest, Honoured s r ∧ r.enabled = true
  nodup : (rest.map Stored.id).Nodup
  tasks : ∀ i id k, (s.taskAt i).about = some (id, k) → k = .opens ∧ id ∉ rest.map Stored.id

structure Inv (s : Panel) : Prop where
  ids : ∀ id, IdOk s id
  boot : ∀ rest, s.boot = some rest → BootOk s rest
  failures : ∀ f ∈ s.failures, f.found.record.isSome = true → f.left = f.found

section Steps

variable {s s' : Panel} {k id : ExtId} {i : Nat} {t : Task} {kind kind' : Kind}

theorem conflicts_comm (a b : Kind) : a.conflicts b = b.conflicts a := by
  cases a <;> cases b <;> rfl

/-- No two closers conflict with a third that opens. -/
theorem opens_of_not_conflicts (h : Kind.conflicts .opens kind = false) : kind = .opens := by
  cases kind with
  | opens => rfl
  | _ => cases h

theorem Honoured.congr {r : Stored} (h : Honoured s r) (h_records : s'.records r.id = s.records r.id) :
    Honoured s' r := by
  rw [Honoured, h_records]
  exact h

/-- What a task relies on is about its extension only. -/
theorem Task.Ok.congr (h : t.Ok s) (h_about : t.about = some (id, kind))
    (records : s'.records id = s.records id) (folders : s'.folders id = s.folders id)
    (loaded : s'.loaded id = s.loaded id) : t.Ok s' := by
  have h_closer : ∀ c : Closer, c.id = id → c.Ok s → c.Ok s' := by
    rintro c rfl h_c
    cases c with
    | install p found =>
      show found.record.isSome = true → (s'.records p.id).isSome = true
      rw [show s'.records p.id = s.records p.id from records]
      exact h_c
    | _ => trivial
  cases t with
  | loading r =>
    cases h_about
    exact ⟨h.1.congr records, h.2⟩
  | running r code =>
    cases h_about
    exact ⟨h.1.congr records, h.2⟩
  | deactivating closer =>
    cases h_about
    exact h_closer closer rfl h
  | deactivated closer =>
    cases h_about
    exact ⟨h_closer closer rfl h.1, loaded.trans h.2⟩
  | building p found =>
    cases h_about
    refine ⟨?_, loaded.trans h.2.1, folders.trans h.2.2⟩
    rw [KeepsFound, records]
    exact h.1
  | done => trivial

theorem opens_cases (h : t.about = some (k, .opens)) :
    ∃ r : Stored, r.id = k ∧ (t = .loading r ∨ ∃ code, t = .running r code) := by
  have h_closer : ∀ closer : Closer, closer.kind ≠ .opens := by
    intro closer
    cases closer with
    | install p found => exact fun h_eq => by cases h_eq
    | disable id => exact fun h_eq => by cases h_eq
    | remove id => exact fun h_eq => by cases h_eq
  cases t with
  | loading r =>
    cases h
    exact ⟨r, rfl, .inl rfl⟩
  | running r code =>
    cases h
    exact ⟨r, rfl, .inr ⟨code, rfl⟩⟩
  | deactivating closer => exact absurd (congrArg Prod.snd (Option.some.inj h)) (h_closer closer)
  | deactivated closer => exact absurd (congrArg Prod.snd (Option.some.inj h)) (h_closer closer)
  | building p found => cases h
  | done => cases h

/-- A task that closes or installs relies on its record being there, not on what it says. -/
theorem Task.Ok.closing (h : t.Ok s) (h_about : t.about = some (k, kind)) (h_kind : kind ≠ .opens)
    (h_records : (s.records k).isSome = true → (s'.records k).isSome = true)
    (h_folders : s'.folders k = s.folders k ∨ ∀ p found, t ≠ .building p found)
    (h_loaded : s.loaded k = none → s'.loaded k = none) : t.Ok s' := by
  have h_closer : ∀ c : Closer, c.id = k → c.Ok s → c.Ok s' := by
    rintro c rfl h_c
    cases c with
    | install p found => exact fun h_found => h_records (h_c h_found)
    | _ => trivial
  cases t with
  | loading r =>
    cases h_about
    exact absurd rfl h_kind
  | running r code =>
    cases h_about
    exact absurd rfl h_kind
  | deactivating closer =>
    cases h_about
    exact h_closer closer rfl h
  | deactivated closer =>
    cases h_about
    exact ⟨h_closer closer rfl h.1, h_loaded h.2⟩
  | building p found =>
    cases h_about
    obtain h_same | h_not := h_folders
    · exact ⟨fun h_found => h_records (h.1 h_found), h_loaded h.2.1, h_same.trans h.2.2⟩
    · exact absurd rfl (h_not p found)
  | done => trivial

/-- A step of one extension, in which one task goes on or joins. -/
structure Touches (s s' : Panel) (k : ExtId) (i : Nat) (t : Task) : Prop where
  records : ∀ id, id ≠ k → s'.records id = s.records id
  folders : ∀ id, id ≠ k → s'.folders id = s.folders id
  loaded : ∀ id, id ≠ k → s'.loaded id = s.loaded id
  tasks : s'.taskAt = Function.update s.taskAt i t
  new : ∀ id kind, t.about = some (id, kind) → id = k
  old : ∀ id kind, (s.taskAt i).about = some (id, kind) → id = k

/-- Other extensions do not notice. -/
theorem IdOk.touches (h : IdOk s id) (h_t : Touches s s' k i t) (h_ne : id ≠ k) : IdOk s' id := by
  have h_task : ∀ j kind, (s'.taskAt j).about = some (id, kind) → s'.taskAt j = s.taskAt j := by
    intro j kind h_j
    obtain ⟨-, h_c⟩ | ⟨-, h_old⟩ := Suspended.update_cases h_t.tasks (rfl : s'.taskAt j = _)
    · exact absurd (h_t.new id kind (h_c ▸ h_j)) h_ne
    · exact h_old.symm
  constructor
  · intro r h_r
    exact h.row r (h_t.records id h_ne ▸ h_r)
  · intro r h_r
    rw [h_t.records id h_ne] at h_r
    obtain h_folder | ⟨j, p, found, h_j, h_p⟩ := h.folder r h_r
    · exact .inl ((h_t.folders id h_ne).trans h_folder)
    · have h_ji : j ≠ i := by
        rintro rfl
        exact h_ne (h_t.old id .installs (by rw [h_j, ← h_p]; rfl))
      refine .inr ⟨j, p, found, ?_, h_p⟩
      rw [h_t.tasks, Function.update_of_ne h_ji, h_j]
  · intro l h_l
    obtain ⟨h_id, h_honoured, h_code⟩ := h.active l (h_t.loaded id h_ne ▸ h_l)
    refine ⟨h_id, h_honoured.congr ?_, h_code⟩
    rw [h_id]
    exact h_t.records id h_ne
  · intro j kind h_j
    have h_same := h_task j kind h_j
    rw [h_same] at h_j ⊢
    exact (h.tasks j kind h_j).congr h_j (h_t.records id h_ne) (h_t.folders id h_ne)
      (h_t.loaded id h_ne)
  · intro j j' kind kind' h_jj h_j h_j'
    rw [h_task j kind h_j] at h_j
    rw [h_task j' kind' h_j'] at h_j'
    exact h.apart j j' kind kind' h_jj h_j h_j'

/-- So only the extension that is touched is looked at. -/
theorem Inv.touches (h : Inv s) (h_t : Touches s s' k i t) (h_k : IdOk s' k)
    (h_boot : ∀ rest, s'.boot = some rest → BootOk s' rest)
    (h_failures : ∀ f ∈ s'.failures, f.found.record.isSome = true → f.left = f.found) : Inv s' where
  ids id := by
    by_cases h_eq : id = k
    · rw [h_eq]
      exact h_k
    · exact (h.ids id).touches h_t h_eq
  boot := h_boot
  failures := h_failures

/-- A task that boot runs leaves the records ahead alone. -/
theorem BootOk.touches {rest : List Stored} (h : BootOk s rest) (h_t : Touches s s' k i t)
    (h_k : k ∉ rest.map Stored.id) (h_new : ∀ id kind, t.about = some (id, kind) → kind = .opens) :
    BootOk s' rest where
  honoured r h_r := by
    obtain ⟨h_honoured, h_enabled⟩ := h.honoured r h_r
    refine ⟨h_honoured.congr (h_t.records r.id ?_), h_enabled⟩
    rintro rfl
    exact h_k (List.mem_map_of_mem h_r)
  nodup := h.nodup
  tasks j id kind h_j := by
    obtain ⟨-, h_c⟩ | ⟨-, h_old⟩ := Suspended.update_cases h_t.tasks (rfl : s'.taskAt j = _)
    · rw [← h_c] at h_j
      refine ⟨h_new id kind h_j, ?_⟩
      rw [h_t.new id kind h_j]
      exact h_k
    · exact h.tasks j id kind (h_old ▸ h_j)

/-- Tasks stay apart when one goes on as what it was, or one joins that none is in the way
    of. -/
theorem IdOk.apart_update (h : IdOk s k) (tasks : s'.taskAt = Function.update s.taskAt i t)
    (h_new : ∀ kind, t.about = some (k, kind) → ∀ j kind', j ≠ i →
      (s.taskAt j).about = some (k, kind') → kind.conflicts kind' = false) :
    ∀ j j' kind kind', j ≠ j' → (s'.taskAt j).about = some (k, kind) →
      (s'.taskAt j').about = some (k, kind') → kind.conflicts kind' = false := by
  intro j j' kind kind' h_ne h_j h_j'
  obtain ⟨h_i, h_c⟩ | ⟨h_i, h_old⟩ := Suspended.update_cases tasks (rfl : s'.taskAt j = _)
  · obtain ⟨h_i', -⟩ | ⟨h_i', h_old'⟩ := Suspended.update_cases tasks (rfl : s'.taskAt j' = _)
    · exact absurd (h_i.trans h_i'.symm) h_ne
    · exact h_new kind (h_c ▸ h_j) j' kind' h_i' (h_old' ▸ h_j')
  · obtain ⟨-, h_c'⟩ | ⟨-, h_old'⟩ := Suspended.update_cases tasks (rfl : s'.taskAt j' = _)
    · rw [conflicts_comm]
      exact h_new kind' (h_c' ▸ h_j') j kind h_i (h_old ▸ h_j)
    · exact h.apart j j' kind kind' h_ne (h_old ▸ h_j) (h_old' ▸ h_j')

theorem tasks_update (tasks : s'.taskAt = Function.update s.taskAt i t) (h_t : t.Ok s')
    (h_others : ∀ j kind, j ≠ i → (s.taskAt j).about = some (k, kind) → (s.taskAt j).Ok s') :
    ∀ j kind, (s'.taskAt j).about = some (k, kind) → (s'.taskAt j).Ok s' := by
  intro j kind h_j
  obtain ⟨-, h_c⟩ | ⟨h_ne, h_old⟩ := Suspended.update_cases tasks (rfl : s'.taskAt j = _)
  · rw [← h_c]
    exact h_t
  · rw [← h_old] at h_j ⊢
    exact h_others j kind h_ne h_j

/-- A task goes on, or joins; nothing else changes. -/
theorem Inv.moves (h : Inv s) (records : s'.records = s.records) (folders : s'.folders = s.folders)
    (loaded : s'.loaded = s.loaded) (boot : s'.boot = s.boot) (failures : s'.failures = s.failures)
    (tasks : s'.taskAt = Function.update s.taskAt i t)
    (new : ∀ id kind, t.about = some (id, kind) → id = k)
    (old : ∀ id kind, (s.taskAt i).about = some (id, kind) → id = k) (h_ok : t.Ok s)
    (h_apart : ∀ kind, t.about = some (k, kind) → ∀ j kind', j ≠ i →
      (s.taskAt j).about = some (k, kind') → kind.conflicts kind' = false)
    (h_folder : ∀ p found, s.taskAt i = .building p found → s.records p.id = none)
    (h_boot : s.boot = none ∨ ∀ rest, s.boot = some rest → (∀ id kind, t.about = some (id, kind) →
      kind = .opens ∧ k ∉ rest.map Stored.id)) : Inv s' := by
  have h_t : Touches s s' k i t := ⟨fun _ _ => by rw [records], fun _ _ => by rw [folders],
    fun _ _ => by rw [loaded], tasks, new, old⟩
  have h_congr : ∀ (t : Task) id kind, t.about = some (id, kind) → t.Ok s → t.Ok s' :=
    fun t id kind h_about h_t => h_t.congr h_about (by rw [records]) (by rw [folders]) (by rw [loaded])
  refine h.touches h_t ⟨?_, ?_, ?_, ?_, ?_⟩ ?_ ?_
  · intro r h_r
    exact (h.ids k).row r (records ▸ h_r)
  · intro r h_r
    rw [records] at h_r
    rw [folders]
    refine ((h.ids k).folder r h_r).imp_right ?_
    rintro ⟨j, p, found, h_j, h_p⟩
    have h_ne : j ≠ i := by
      rintro rfl
      have h_none := h_folder p found h_j
      rw [h_p, h_r] at h_none
      cases h_none
    refine ⟨j, p, found, ?_, h_p⟩
    rw [tasks, Function.update_of_ne h_ne, h_j]
  · intro l h_l
    obtain ⟨h_id, h_honoured, h_code⟩ := (h.ids k).active l (loaded ▸ h_l)
    exact ⟨h_id, h_honoured.congr (by rw [records]), h_code⟩
  · intro j kind h_j
    obtain ⟨-, h_c⟩ | ⟨-, h_old⟩ := Suspended.update_cases tasks (rfl : s'.taskAt j = _)
    · rw [← h_c] at h_j ⊢
      exact h_congr t k kind h_j h_ok
    · rw [← h_old] at h_j ⊢
      exact h_congr _ k kind h_j ((h.ids k).tasks j kind h_j)
  · exact (h.ids k).apart_update tasks h_apart
  · intro rest h_rest
    rw [boot] at h_rest
    have h_ok' := h.boot rest h_rest
    obtain h_none | h_boot := h_boot
    · rw [h_none] at h_rest
      cases h_rest
    · refine ⟨fun r h_r => ⟨(h_ok'.honoured r h_r).1.congr (by rw [records]),
        (h_ok'.honoured r h_r).2⟩, h_ok'.nodup, fun j id kind h_j => ?_⟩
      obtain ⟨-, h_c⟩ | ⟨-, h_old⟩ := Suspended.update_cases tasks (rfl : s'.taskAt j = _)
      · rw [← h_c] at h_j
        obtain ⟨h_kind, h_k⟩ := h_boot rest h_rest id kind h_j
        refine ⟨h_kind, ?_⟩
        rw [new id kind h_j]
        exact h_k
      · exact h_ok'.tasks j id kind (h_old ▸ h_j)
  · rw [failures]
    exact h.failures

/-- The record that a task opens its extension with. -/
def Task.opened : Task → Option Stored
  | .loading r => some r
  | .running r _ => some r
  | _ => none

theorem Task.Ok.honoured {r : Stored} (h : t.Ok s) (h_opened : t.opened = some r) :
    Honoured s r ∧ r.enabled = true := by
  cases t with
  | loading r' =>
    cases h_opened
    exact ⟨h.1, h.2.1⟩
  | running r' code =>
    cases h_opened
    exact ⟨h.1, h.2.1⟩
  | _ => cases h_opened

/-- The row of an extension is written; the package stays, and what contexts honour. -/
theorem Inv.rewrites {r q : Stored} (h : Inv s) (h_r : s.records k = some r)
    (records : s'.records = Function.update s.records k (some q))
    (folders : s'.folders = s.folders) (loaded : s'.loaded = s.loaded) (tasks : s'.taskAt = s.taskAt)
    (boot : s'.boot = s.boot) (failures : s'.failures = s.failures)
    (h_package : q.package = r.package)
    (h_granted : ∀ c ∈ q.granted, c ∈ q.package.manifest.requires)
    (h_active : ∀ l, s.loaded k = some l → q.enabled = true ∧ ∀ c ∈ l.record.granted, c ∈ q.granted)
    (h_opening : ∀ j x, (s.taskAt j).opened = some x → x.id = k →
      q.enabled = true ∧ ∀ c ∈ x.granted, c ∈ q.granted)
    (h_boot : s.boot = none ∨ ∀ rest, s.boot = some rest → k ∉ rest.map Stored.id) : Inv s' := by
  have h_row : s'.records k = some q := by rw [records, Function.update_self]
  have h_id : r.id = k := ((h.ids k).row r h_r).1
  have h_honoured : ∀ x : Stored, x.id = k → Honoured s x →
      q.enabled = true ∧ (∀ c ∈ x.granted, c ∈ q.granted) → Honoured s' x := by
    rintro x h_x ⟨y, h_y, -, h_same, -⟩ ⟨h_enabled, h_sub⟩
    rw [h_x, h_r] at h_y
    cases h_y
    exact ⟨q, by rw [h_x, h_row], h_enabled, h_package.trans h_same, h_sub⟩
  have h_t : Touches s s' k s.tasks.length (.done) := by
    refine ⟨fun id h_ne => by rw [records, Function.update_of_ne h_ne], fun _ _ => by rw [folders],
      fun _ _ => by rw [loaded], ?_, ?_, ?_⟩
    · rw [tasks]
      funext j
      by_cases h_j : j = s.tasks.length
      · rw [h_j, Function.update_self]
        exact Suspended.get_length Task.done s.tasks
      · rw [Function.update_of_ne h_j]
    · rintro id kind ⟨⟩
    · intro id kind h_done
      rw [Panel.taskAt, Suspended.get_length] at h_done
      cases h_done
  refine h.touches h_t ⟨?_, ?_, ?_, ?_, ?_⟩ ?_ ?_
  · intro x h_x
    rw [h_row] at h_x
    cases h_x
    refine ⟨?_, h_granted⟩
    rw [Stored.id, h_package]
    exact h_id
  · intro x h_x
    rw [h_row] at h_x
    cases h_x
    rw [h_package, folders, tasks]
    exact (h.ids k).folder r h_r
  · intro l h_l
    rw [loaded] at h_l
    obtain ⟨h_lid, h_lh, h_code⟩ := (h.ids k).active l h_l
    exact ⟨h_lid, h_honoured l.record h_lid h_lh (h_active l h_l), h_code⟩
  · intro j kind h_j
    rw [tasks] at h_j ⊢
    have h_ok := (h.ids k).tasks j kind h_j
    by_cases h_kind : kind = .opens
    · rw [h_kind] at h_j
      obtain ⟨x, h_x, h_task | ⟨code, h_task⟩⟩ := opens_cases h_j
      · rw [h_task] at h_ok ⊢
        exact ⟨h_honoured x h_x h_ok.1 (h_opening j x (by rw [h_task]; rfl) h_x), h_ok.2⟩
      · rw [h_task] at h_ok ⊢
        exact ⟨h_honoured x h_x h_ok.1 (h_opening j x (by rw [h_task]; rfl) h_x), h_ok.2⟩
    · exact h_ok.closing h_j h_kind (fun _ => by rw [h_row]; rfl) (.inl (by rw [folders]))
        (fun h_none => by rw [loaded]; exact h_none)
  · rw [tasks]
    exact (h.ids k).apart
  · intro rest h_rest
    rw [boot] at h_rest
    obtain h_none | h_not := h_boot
    · rw [h_none] at h_rest
      cases h_rest
    · exact (h.boot rest h_rest).touches h_t (h_not rest h_rest) (by rintro id kind ⟨⟩)
  · rw [failures]
    exact h.failures

/-- The extension becomes active, or stops being active. -/
theorem Inv.loads {l : Option Loaded} (h : Inv s) (records : s'.records = s.records)
    (folders : s'.folders = s.folders) (loaded : s'.loaded = Function.update s.loaded k l)
    (boot : s'.boot = s.boot) (failures : s'.failures = s.failures)
    (tasks : s'.taskAt = Function.update s.taskAt i t)
    (new : ∀ kind, t.about = some (k, kind) → (s.taskAt i).about = some (k, kind))
    (new_id : ∀ id kind, t.about = some (id, kind) → id = k)
    (old : ∀ id kind, (s.taskAt i).about = some (id, kind) → id = k)
    (h_building : ∀ p found, s.taskAt i ≠ .building p found) (h_ok : t.Ok s')
    (h_active : ∀ x, l = some x → x.record.id = k ∧ Honoured s x.record ∧
      x.code = ownCode x.record.package)
    (h_others : ∀ j kind, j ≠ i → (s.taskAt j).about = some (k, kind) → kind ≠ .opens → l = none)
    (h_boot : ∀ rest, s.boot = some rest → k ∉ rest.map Stored.id ∧
      ∀ id kind, t.about = some (id, kind) → kind = .opens) : Inv s' := by
  have h_t : Touches s s' k i t := ⟨fun _ _ => by rw [records], fun _ _ => by rw [folders],
    fun id h_ne => by rw [loaded, Function.update_of_ne h_ne], tasks, new_id, old⟩
  refine h.touches h_t ⟨?_, ?_, ?_, ?_, ?_⟩ ?_ ?_
  · intro r h_r
    exact (h.ids k).row r (records ▸ h_r)
  · intro r h_r
    rw [records] at h_r
    rw [folders]
    refine ((h.ids k).folder r h_r).imp_right ?_
    rintro ⟨j, p, found, h_j, h_p⟩
    have h_ne : j ≠ i := by
      rintro rfl
      exact h_building p found h_j
    refine ⟨j, p, found, ?_, h_p⟩
    rw [tasks, Function.update_of_ne h_ne, h_j]
  · intro x h_x
    rw [loaded, Function.update_self] at h_x
    obtain ⟨h_id, h_honoured, h_code⟩ := h_active x h_x
    exact ⟨h_id, h_honoured.congr (by rw [records]), h_code⟩
  · refine tasks_update tasks h_ok fun j kind h_ne h_j => ?_
    have h_old := (h.ids k).tasks j kind h_j
    by_cases h_kind : kind = .opens
    · rw [h_kind] at h_j
      obtain ⟨x, h_x, h_task | ⟨code, h_task⟩⟩ := opens_cases h_j
      · rw [h_task] at h_old ⊢
        exact ⟨h_old.1.congr (by rw [records]), h_old.2⟩
      · rw [h_task] at h_old ⊢
        exact ⟨h_old.1.congr (by rw [records]), h_old.2⟩
    · refine h_old.closing h_j h_kind (fun h_some => by rw [records]; exact h_some)
        (.inl (by rw [folders])) fun _ => ?_
      rw [loaded, Function.update_self]
      exact h_others j kind h_ne h_j h_kind
  · exact (h.ids k).apart_update tasks fun kind h_kind j kind' h_ne h_j =>
      (h.ids k).apart i j kind kind' (Ne.symm h_ne) (new kind h_kind) h_j
  · intro rest h_rest
    rw [boot] at h_rest
    obtain ⟨h_k, h_opens⟩ := h_boot rest h_rest
    exact (h.boot rest h_rest).touches h_t h_k h_opens
  · rw [failures]
    exact h.failures

/-- The folder and the record of an extension that is not active are replaced, while nothing but
    disabling it is under way. -/
theorem Inv.replaces {r : Option Stored} {f : Folder} (h : Inv s)
    (records : s'.records = Function.update s.records k r)
    (folders : s'.folders = Function.update s.folders k f) (loaded : s'.loaded = s.loaded)
    (boot : s'.boot = none) (tasks : s'.taskAt = Function.update s.taskAt i t)
    (h_failures : ∀ x ∈ s'.failures, x.found.record.isSome = true → x.left = x.found)
    (new : ∀ id kind, t.about = some (id, kind) → id = k ∧ kind = .installs)
    (old : ∀ id kind, (s.taskAt i).about = some (id, kind) → id = k)
    (h_row : ∀ x, r = some x → x.id = k ∧ ∀ c ∈ x.granted, c ∈ x.package.manifest.requires)
    (h_folder : ∀ x, r = some x → f = .holds x.package ∨ ∃ p found, t = .building p found ∧ p.id = k)
    (h_loaded : s.loaded k = none) (h_ok : t.Ok s')
    (h_others : ∀ j kind, j ≠ i → (s.taskAt j).about = some (k, kind) → kind = .disables ∨
      (kind = .removes ∧ t = .done)) : Inv s' := by
  have h_t : Touches s s' k i t := ⟨fun id h_ne => by rw [records, Function.update_of_ne h_ne],
    fun id h_ne => by rw [folders, Function.update_of_ne h_ne], fun _ _ => by rw [loaded], tasks,
    fun id kind h_about => (new id kind h_about).1, old⟩
  refine h.touches h_t ⟨?_, ?_, ?_, ?_, ?_⟩ ?_ h_failures
  · intro x h_x
    rw [records, Function.update_self] at h_x
    exact h_row x h_x
  · intro x h_x
    rw [records, Function.update_self] at h_x
    rw [folders, Function.update_self]
    refine (h_folder x h_x).imp_right ?_
    rintro ⟨p, found, h_p, h_id⟩
    exact ⟨i, p, found, by rw [tasks, Function.update_self, h_p], h_id⟩
  · intro l h_l
    rw [loaded, h_loaded] at h_l
    cases h_l
  · refine tasks_update tasks h_ok fun j kind h_ne h_j => ?_
    have h_old := (h.ids k).tasks j kind h_j
    cases h_task : s.taskAt j with
    | deactivating closer =>
      rw [h_task] at h_j
      cases closer with
      | install p found =>
        cases h_j
        obtain h_kind | ⟨h_kind, -⟩ := h_others j .installs h_ne (by rw [h_task]; rfl)
        · cases h_kind
        · cases h_kind
      | _ => trivial
    | deactivated closer =>
      rw [h_task] at h_j h_old
      have h_none : s'.loaded closer.id = none := by
        rw [loaded]
        exact h_old.2
      cases closer with
      | install p found =>
        cases h_j
        obtain h_kind | ⟨h_kind, -⟩ := h_others j .installs h_ne (by rw [h_task]; rfl)
        · cases h_kind
        · cases h_kind
      | _ => exact ⟨trivial, h_none⟩
    | done => trivial
    | _ =>
      have h_kind := h_others j kind h_ne h_j
      rw [h_task] at h_j
      cases h_j
      obtain h_kind | ⟨h_kind, -⟩ := h_kind
      · cases h_kind
      · cases h_kind
  · refine (h.ids k).apart_update tasks fun kind h_kind j kind' h_ne h_j => ?_
    obtain ⟨-, rfl⟩ := new k kind h_kind
    obtain rfl | ⟨-, rfl⟩ := h_others j kind' h_ne h_j
    · rfl
    · cases h_kind
  · intro rest h_rest
    rw [boot] at h_rest
    cases h_rest

end Steps

/-! ## The steps of careful runs -/

section Careful

open Panel

variable {cwd : Path} {s s' s₁ : Panel} {id : ExtId} {i : Nat} {t : Task} {kind : Kind}

theorem taskAt_push (h : s₁.tasks = s.tasks) (t : Task) :
    (push (s₁, t)).taskAt = Function.update s.taskAt s.tasks.length t := by
  rw [push, ← h]
  exact (Suspended.get_push Task.done s₁.tasks t).trans (by rw [h]; rfl)

theorem taskAt_resume (h : s₁.tasks = s.tasks) (h_at : s.taskAt i ≠ .done) (t : Task) :
    (resume i (s₁, t)).taskAt = Function.update s.taskAt i t := by
  have h_lt : i < s.tasks.length := Suspended.lt_of_get_ne Task.done h_at
  rw [resume, h]
  exact Suspended.get_set Task.done h_lt t

theorem about_new (s : Panel) (id : ExtId) (kind : Kind) :
    (s.taskAt s.tasks.length).about ≠ some (id, kind) := by
  rw [Panel.taskAt, Suspended.get_length]
  simp [Task.about]

theorem new_ne_building (s : Panel) (p : Package) (found : Snapshot) :
    s.taskAt s.tasks.length ≠ .building p found := fun h_at =>
  about_new s p.id .installs (by rw [h_at]; rfl)

theorem mem_of_about (h : (s.taskAt i).about = some (id, kind)) : s.taskAt i ∈ s.tasks := by
  have h_lt : i < s.tasks.length := by
    refine Suspended.lt_of_get_ne Task.done fun h_done => ?_
    rw [Panel.taskAt, h_done] at h
    cases h
  rw [Panel.taskAt, Suspended.get, List.getElem?_eq_getElem h_lt]
  exact List.getElem_mem h_lt

theorem free_spec {k : Kind} (h : s.free id k = true)
    (h_about : (s.taskAt i).about = some (id, kind)) : k.conflicts kind = false := by
  have h_task := List.all_eq_true.mp h _ (mem_of_about h_about)
  rw [h_about] at h_task
  simpa using h_task

theorem keepsGrants_spec {granted : List Capability} {left : Option Nat}
    (h : s.keepsGrants id granted left = true) :
    (∀ l, s.loaded id = some l → ∀ c ∈ l.record.granted, c ∈ granted) ∧
    ∀ j x, some j ≠ left → (s.taskAt j).opened = some x → x.id = id → ∀ c ∈ x.granted, c ∈ granted := by
  rw [keepsGrants, Bool.and_eq_true] at h
  refine ⟨fun l h_l => ?_, fun j x h_j h_x h_id => ?_⟩
  · have h_l' := h.1
    rw [h_l] at h_l'
    simpa using h_l'
  · have h_lt : j < s.tasks.length := by
      refine Suspended.lt_of_get_ne Task.done fun h_done => ?_
      rw [Panel.taskAt, h_done] at h_x
      cases h_x
    have h_task := List.all_eq_true.mp h.2 j (List.mem_range.mpr h_lt)
    rw [Bool.or_eq_true] at h_task
    obtain h_left | h_task := h_task
    · exact absurd (by simpa using h_left) h_j
    · cases h_at : s.taskAt j with
      | loading r =>
        rw [h_at] at h_task h_x
        cases h_x
        simpa [h_id] using h_task
      | running r code =>
        rw [h_at] at h_task h_x
        cases h_x
        simpa [h_id] using h_task
      | _ =>
        rw [h_at] at h_x
        cases h_x

/-- Only `failures` is added to. -/
theorem Inv.fails {found : Snapshot} (h : Inv s)
    (h_found : found.record.isSome = true → s.snapshot id = found) : Inv (s.fails id found) where
  ids k := ⟨(h.ids k).row, (h.ids k).folder, (h.ids k).active, fun i kind h_i =>
    ((h.ids k).tasks i kind h_i).congr h_i rfl rfl rfl, (h.ids k).apart⟩
  boot rest h_rest := ⟨(h.boot rest h_rest).honoured, (h.boot rest h_rest).nodup,
    (h.boot rest h_rest).tasks⟩
  failures f h_f := by
    obtain h_f | h_f := List.mem_append.mp h_f
    · exact h.failures f h_f
    · rw [List.mem_singleton.mp h_f]
      exact h_found

theorem about_of_opened {r : Stored} (h : t.opened = some r) (h_id : r.id = id) :
    t.about = some (id, .opens) := by
  cases t with
  | loading x =>
    cases h
    rw [← h_id]
    rfl
  | running x code =>
    cases h
    rw [← h_id]
    rfl
  | _ => cases h

/-- The status of an extension is written. -/
theorem Inv.setStatus {status : ExtensionStatus} (h : Inv s)
    (h_boot : s.boot = none ∨ ∀ rest, s.boot = some rest → id ∉ rest.map Stored.id) :
    Inv (s.writeRecord id fun r => { r with status := status }) := by
  cases h_r : s.records id with
  | none =>
    have h_same : s.writeRecord id (fun r => { r with status := status }) = s := by
      have h_update : Function.update s.records id none = s.records := by
        rw [← h_r]
        exact Function.update_eq_self id s.records
      rw [writeRecord, setRecord, h_r, Option.map_none, h_update]
    rw [h_same]
    exact h
  | some r =>
    have h_row := (h.ids id).row r h_r
    have h_of : ∀ x : Stored, x.id = id → Honoured s x →
        r.enabled = true ∧ ∀ c ∈ x.granted, c ∈ r.granted := by
      rintro x h_x ⟨y, h_y, h_enabled, -, h_sub⟩
      rw [h_x, h_r] at h_y
      cases h_y
      exact ⟨h_enabled, h_sub⟩
    refine h.rewrites (q := { r with status := status }) h_r ?_ rfl rfl rfl rfl rfl rfl h_row.2
      (fun l h_l => ?_) (fun j x h_x h_id => ?_) h_boot
    · rw [writeRecord, setRecord, h_r]
      rfl
    · obtain ⟨h_id, h_honoured, -⟩ := (h.ids id).active l h_l
      exact h_of l.record h_id h_honoured
    · have h_about : (s.taskAt j).about = some (id, .opens) := about_of_opened h_x h_id
      exact h_of x h_id (((h.ids id).tasks j .opens h_about).honoured h_x).1

/-- `activate` begins for a record that is honoured. -/
theorem Inv.activate {r : Stored} {registers : Bool} (h : Inv s) (h_honoured : Honoured s r)
    (h_enabled : r.enabled = true)
    (h_free : ∀ j kind, (s.taskAt j).about = some (r.id, kind) → kind = .opens)
    (h_boot : ∀ rest, s.boot = some rest → r.id ∉ rest.map Stored.id) :
    Inv (push (s.activate r registers)) := by
  rw [Panel.activate]
  split
  · exact h.moves (k := r.id) rfl rfl rfl rfl rfl (taskAt_push rfl .done) (by rintro _ _ ⟨⟩)
      (fun id kind h_old => absurd h_old (about_new s id kind)) trivial (by rintro _ ⟨⟩)
      (fun p found h_at => absurd h_at (new_ne_building s p found))
      (.inr fun rest _ => by rintro _ _ ⟨⟩)
  · split
    · rename_i h_backend
      refine h.moves (k := r.id) rfl rfl rfl rfl rfl (taskAt_push rfl (.loading r)) ?_
        (fun id kind h_old => absurd h_old (about_new s id kind)) ⟨h_honoured, h_enabled, h_backend⟩
        ?_ (fun p found h_at => absurd h_at (new_ne_building s p found))
        (.inr fun rest h_rest => ?_)
      · rintro id kind ⟨⟩
        rfl
      · rintro kind ⟨⟩ j kind' - h_j
        rw [h_free j kind' h_j]
        rfl
      · rintro id kind ⟨⟩
        exact ⟨rfl, h_boot rest h_rest⟩
    · rename_i h_backend
      have h_loads : Inv (push (s.setLoaded r.id (some ⟨r, none⟩), .done)) := by
        refine h.loads (k := r.id) rfl rfl rfl rfl rfl (taskAt_push rfl .done) (by rintro _ ⟨⟩)
          (by rintro _ _ ⟨⟩) (fun id kind h_old => absurd h_old (about_new s id kind))
          (new_ne_building s) trivial ?_
          (fun j kind _ h_j h_kind => absurd (h_free j kind h_j) h_kind)
          (fun rest h_rest => ⟨h_boot rest h_rest, by rintro _ _ ⟨⟩⟩)
        rintro x ⟨⟩
        exact ⟨rfl, h_honoured, by rw [ownCode, if_neg h_backend]⟩
      exact h_loads.setStatus (.inr h_boot)

/-- `deactivate` begins; an install remembers the extension that is there. -/
theorem Inv.deactivate {closer : Closer} (h : Inv s) (h_boot : s.boot = none)
    (h_ok : closer.Ok s) (h_free : s.free closer.id closer.kind = true) :
    Inv (push (s.deactivate closer)) := by
  rw [Panel.deactivate]
  have h_apart : ∀ kind, some (closer.id, closer.kind) = some (closer.id, kind) →
      ∀ j kind', j ≠ s.tasks.length → (s.taskAt j).about = some (closer.id, kind') →
        kind.conflicts kind' = false := by
    rintro kind h_kind j kind' - h_j
    have h_eq : closer.kind = kind := congrArg Prod.snd (Option.some.inj h_kind)
    rw [← h_eq]
    exact free_spec h_free h_j
  have h_id : ∀ id kind, some (closer.id, closer.kind) = some (id, kind) → id = closer.id :=
    fun id kind h_about => (congrArg Prod.fst (Option.some.inj h_about)).symm
  split
  · exact h.moves (k := closer.id) rfl rfl rfl rfl rfl (taskAt_push rfl (.deactivating closer)) h_id
      (fun id kind h_old => absurd h_old (about_new s id kind)) h_ok h_apart
      (fun p found h_at => absurd h_at (new_ne_building s p found)) (.inl h_boot)
  · rename_i h_none
    exact h.moves (k := closer.id) rfl rfl rfl rfl rfl (taskAt_push rfl (.deactivated closer)) h_id
      (fun id kind h_old => absurd h_old (about_new s id kind)) ⟨h_ok, h_none⟩ h_apart
      (fun p found h_at => absurd h_at (new_ne_building s p found)) (.inl h_boot)

theorem tasks_copyFiles (s : Panel) (p : Package) (found : Snapshot) (copies : Bool) :
    (s.copyFiles p found copies).1.tasks = s.tasks := by
  rw [Panel.copyFiles]
  split
  · rfl
  · split
    · rfl
    · rfl

/-- An install replaces an extension that is not active. -/
theorem Inv.copyFiles (h : Inv s) (p : Package) (found : Snapshot) (copies : Bool)
    (h_boot : s.boot = none) (h_found : KeepsFound s p found) (h_loaded : s.loaded p.id = none)
    (h_copies : copies = true ∨ s.records p.id = none)
    (old : ∀ id kind, (s.taskAt i).about = some (id, kind) → id = p.id)
    (h_others : ∀ j kind, j ≠ i → (s.taskAt j).about = some (p.id, kind) → kind = .disables)
    (records : s'.records = (s.copyFiles p found copies).1.records)
    (folders : s'.folders = (s.copyFiles p found copies).1.folders)
    (loaded : s'.loaded = (s.copyFiles p found copies).1.loaded)
    (boot : s'.boot = (s.copyFiles p found copies).1.boot)
    (failures : s'.failures = (s.copyFiles p found copies).1.failures)
    (tasks : s'.taskAt = Function.update s.taskAt i (s.copyFiles p found copies).2) : Inv s' := by
  have h_same : Function.update s.records p.id (s.records p.id) = s.records :=
    Function.update_eq_self p.id s.records
  rw [Panel.copyFiles] at records folders loaded boot failures tasks
  split at records
  · -- The folder is broken, which no record notices.
    rename_i h_not
    have h_none : s.records p.id = none := by
      obtain h_copies | h_none := h_copies
      · rw [h_copies] at h_not
        cases h_not
      · exact h_none
    rw [if_pos h_not] at folders loaded boot failures tasks
    refine h.replaces (k := p.id) (i := i) (t := .done) (r := none) (f := .broken) ?_ folders loaded
      (boot.trans h_boot) tasks ?_ (by rintro _ _ ⟨⟩) old (by rintro _ ⟨⟩) (by rintro _ ⟨⟩) h_loaded
      trivial (fun j kind h_ne h_j => .inl (h_others j kind h_ne h_j))
    · rw [← h_none, h_same]
      exact records
    · rw [failures]
      intro x h_x h_some
      obtain h_x | h_x := List.mem_append.mp h_x
      · exact h.failures x h_x h_some
      · rw [List.mem_singleton.mp h_x] at h_some
        have h_record := h_found h_some
        rw [h_none] at h_record
        cases h_record
  · rename_i h_not
    rw [if_neg h_not] at folders loaded boot failures tasks
    split at records
    · rename_i h_frontend
      rw [if_pos h_frontend] at folders loaded boot failures tasks
      refine h.replaces (k := p.id) (i := i) (t := .building p found) (r := s.records p.id)
        (f := .holds p) ?_ folders loaded (boot.trans h_boot) tasks (failures ▸ h.failures) ?_ old
        (fun x h_x => (h.ids p.id).row x h_x) (fun x _ => .inr ⟨p, found, rfl, rfl⟩) h_loaded ?_
        (fun j kind h_ne h_j => .inl (h_others j kind h_ne h_j))
      · rw [h_same]
        exact records
      · rintro id kind ⟨⟩
        exact ⟨rfl, rfl⟩
      · refine ⟨?_, by rw [loaded]; exact h_loaded, by rw [folders]; exact Function.update_self _ _ _⟩
        rw [KeepsFound, records]
        exact h_found
    · rename_i h_frontend
      rw [if_neg h_frontend] at folders loaded boot failures tasks
      refine h.replaces (k := p.id) (i := i) (t := .done) (r := some (installed p)) (f := .holds p)
        records folders loaded (boot.trans h_boot) tasks (failures ▸ h.failures) (by rintro _ _ ⟨⟩)
        old ?_ ?_ h_loaded trivial (fun j kind h_ne h_j => .inl (h_others j kind h_ne h_j))
      · rintro x ⟨⟩
        exact ⟨rfl, by simp [installed]⟩
      · rintro x ⟨⟩
        exact .inl rfl

theorem disables_of_installs (h : Kind.conflicts .installs kind = false) : kind = .disables := by
  cases kind with
  | disables => rfl
  | _ => cases h

/-- The record an extension is enabled with. -/
theorem Inv.enables {r : Stored} (h : Inv s) (h_boot : s.boot = none) (h_r : s.records id = some r)
    (h_free : s.free id .opens = true) :
    Inv (s.setRecord id (some { r with enabled := true })) ∧
      Honoured (s.setRecord id (some { r with enabled := true })) { r with enabled := true } := by
  have h_row := (h.ids id).row r h_r
  have h_of : ∀ x : Stored, x.id = id → Honoured s x → ∀ c ∈ x.granted, c ∈ r.granted := by
    rintro x h_x ⟨y, h_y, -, -, h_sub⟩
    rw [h_x, h_r] at h_y
    cases h_y
    exact h_sub
  refine ⟨h.rewrites h_r rfl rfl rfl rfl rfl rfl rfl h_row.2 (fun l h_l => ⟨rfl, ?_⟩)
    (fun j x h_x h_id => ⟨rfl, ?_⟩) (.inl h_boot), ?_⟩
  · obtain ⟨h_id, h_honoured, -⟩ := (h.ids id).active l h_l
    exact h_of l.record h_id h_honoured
  · have h_about : (s.taskAt j).about = some (id, .opens) := about_of_opened h_x h_id
    exact h_of x h_id (((h.ids id).tasks j .opens h_about).honoured h_x).1
  · refine ⟨{ r with enabled := true }, ?_, rfl, rfl, fun c h_c => h_c⟩
    show Function.update s.records id (some { r with enabled := true }) r.id = _
    rw [h_row.1, Function.update_self]

/-- Consent that keeps what contexts honour. -/
theorem Inv.consent {r : Stored} {capabilities : List Capability} (h : Inv s)
    (h_boot : s.boot = none) (h_r : s.records id = some r)
    (h_keeps : s.keepsGrants id (capabilities.filter fun c => c ∈ r.package.manifest.requires)
      none = true) :
    Inv (s.setRecord id (some { r with
      granted := capabilities.filter fun c => c ∈ r.package.manifest.requires })) := by
  obtain ⟨h_active, h_opening⟩ := keepsGrants_spec h_keeps
  have h_enabled : ∀ x : Stored, x.id = id → Honoured s x → r.enabled = true := by
    rintro x h_x ⟨y, h_y, h_enabled, -, -⟩
    rw [h_x, h_r] at h_y
    cases h_y
    exact h_enabled
  refine h.rewrites h_r rfl rfl rfl rfl rfl rfl rfl ?_ (fun l h_l => ⟨?_, h_active l h_l⟩)
    (fun j x h_x h_id => ⟨?_, h_opening j x (by simp) h_x h_id⟩) (.inl h_boot)
  · intro c h_c
    simpa using (List.mem_filter.mp h_c).2
  · obtain ⟨h_id, h_honoured, -⟩ := (h.ids id).active l h_l
    exact h_enabled l.record h_id h_honoured
  · have h_about : (s.taskAt j).about = some (id, .opens) := about_of_opened h_x h_id
    exact h_enabled x h_id (((h.ids id).tasks j .opens h_about).honoured h_x).1

theorem Inv.request {e : Event} (h : Inv s) (h_boot : s.boot = none)
    (h_careful : careful cwd s e = true) (h_step : request s e = some s') : Inv s' := by
  cases e with
  | rejected id =>
    cases h_step
    exact h.fails fun _ => rfl
  | install p copies =>
    simp only [careful, Bool.and_eq_true, Bool.or_eq_true, Option.isNone_iff_eq_none] at h_careful
    obtain ⟨h_free, h_copies⟩ := h_careful
    have h_found : KeepsFound s p (s.snapshot p.id) := fun h_some => h_some
    simp only [Consent.request] at h_step
    split at h_step
    · cases h_step
      exact h.deactivate h_boot h_found h_free
    · rename_i h_not
      have h_loaded : s.loaded p.id = none := by
        cases h_l : s.loaded p.id with
        | none => rfl
        | some l =>
          obtain ⟨h_id, ⟨r, h_r, -⟩, -⟩ := (h.ids p.id).active l h_l
          rw [h_id] at h_r
          rw [h_l, h_r] at h_not
          exact absurd rfl h_not
      cases h_step
      refine h.copyFiles p (s.snapshot p.id) copies (i := s.tasks.length) h_boot
        h_found h_loaded ?_
        (fun id kind h_old => absurd h_old (about_new s id kind))
        (fun j kind _ h_j => disables_of_installs (free_spec h_free h_j)) rfl rfl rfl rfl rfl ?_
      · obtain (h_copies | h_some) | h_none := h_copies
        · exact .inl h_copies
        · rw [h_loaded] at h_some
          cases h_some
        · exact .inr h_none
      · exact taskAt_push (tasks_copyFiles s p (s.snapshot p.id) copies) _
  | consent id capabilities =>
    simp only [Consent.request, Option.map_eq_some_iff] at h_step
    obtain ⟨r, h_r, rfl⟩ := h_step
    simp only [careful, h_r] at h_careful
    exact h.consent h_boot h_r h_careful
  | enable id registers =>
    simp only [Consent.request] at h_step
    split at h_step
    · cases h_step
    · rename_i r h_r
      split at h_step
      · cases h_step
      · cases h_step
        obtain ⟨h_inv, h_honoured⟩ := h.enables h_boot h_r h_careful
        have h_id : r.id = id := ((h.ids id).row r h_r).1
        refine h_inv.activate h_honoured rfl (fun j kind h_j => ?_) (fun rest h_rest => ?_)
        · rw [show ({ r with enabled := true } : Stored).id = id from h_id] at h_j
          exact opens_of_not_conflicts (free_spec h_careful h_j)
        · rw [show (s.setRecord id _).boot = s.boot from rfl, h_boot] at h_rest
          cases h_rest
  | disable id =>
    simp only [Consent.request, Option.map_eq_some_iff] at h_step
    obtain ⟨r, h_r, rfl⟩ := h_step
    exact h.deactivate h_boot trivial h_careful
  | remove id =>
    simp only [Consent.request, Option.map_eq_some_iff] at h_step
    obtain ⟨r, h_r, rfl⟩ := h_step
    exact h.deactivate h_boot trivial h_careful
  | _ => cases h_step

/-- Boot runs no task that closes. -/
theorem Inv.boot_none (h : Inv s) (h_about : (s.taskAt i).about = some (id, kind))
    (h_kind : kind ≠ .opens) : s.boot = none := by
  cases h_boot : s.boot with
  | none => rfl
  | some rest => exact absurd ((h.boot rest h_boot).tasks i id kind h_about).1 h_kind

theorem Closer.kind_ne_opens (closer : Closer) : closer.kind ≠ .opens := by
  cases closer with
  | install p found => exact fun h => by cases h
  | disable id => exact fun h => by cases h
  | remove id => exact fun h => by cases h

theorem not_done_of_eq {x : Task} (h : s.taskAt i = x) (h_x : x ≠ .done) : s.taskAt i ≠ .done :=
  h ▸ h_x

/-- Boot has no record of an extension ahead that one of its tasks is about. -/
theorem BootOk.not_mem {rest : List Stored} (h : BootOk s rest)
    (h_about : (s.taskAt i).about = some (id, kind)) : id ∉ rest.map Stored.id :=
  (h.tasks i id kind h_about).2

/-- A task that has opened its extension. -/
theorem Inv.opening {r : Stored} (h : Inv s) (h_opened : (s.taskAt i).opened = some r) :
    Honoured s r ∧ r.enabled = true ∧ (s.taskAt i).about = some (r.id, .opens) ∧
      ∀ j kind, j ≠ i → (s.taskAt j).about = some (r.id, kind) → kind = .opens := by
  have h_about := about_of_opened h_opened rfl
  obtain ⟨h_honoured, h_enabled⟩ := ((h.ids r.id).tasks i .opens h_about).honoured h_opened
  exact ⟨h_honoured, h_enabled, h_about, fun j kind h_ne h_j =>
    opens_of_not_conflicts ((h.ids r.id).apart i j .opens kind (Ne.symm h_ne) h_about h_j)⟩

/-- The module of a careful load is the package's own. -/
theorem Inv.module_eq {r : Stored} (h : Inv s) (h_at : s.taskAt i = .loading r)
    (h_careful : careful cwd s (.moduleLoads i) = true) : s.module cwd r = some r.package := by
  obtain ⟨⟨r', h_r', -, h_package, -⟩, -, h_about, h_others⟩ :=
    h.opening (show (s.taskAt i).opened = some r by rw [h_at]; rfl)
  simp only [careful, h_at, Bool.and_eq_true, decide_eq_true_eq] at h_careful
  obtain ⟨h_owner, h_cache⟩ := h_careful
  rw [Panel.module]
  cases h_file : s.cache (moduleFile cwd r.id r.package.entry) with
  | some code =>
    rw [h_file] at h_cache
    simpa using h_cache
  | none =>
    obtain h_folder | ⟨j, p, found, h_j, h_p⟩ := (h.ids r.id).folder r' h_r'
    · rw [Option.getD_none, codeAt, h_owner, Option.map_some, h_folder, h_package]
    · -- No install of the extension is under way.
      have h_ne : j ≠ i := by
        rintro rfl
        rw [h_at] at h_j
        cases h_j
      have h_kind := h_others j .installs h_ne (by rw [h_j, ← h_p]; rfl)
      cases h_kind

theorem Inv.moduleLoads {r : Stored} (h : Inv s) (h_at : s.taskAt i = .loading r)
    (h_careful : careful cwd s (.moduleLoads i) = true) :
    Inv (resume i (s.remember cwd r, .running r (s.module cwd r))) := by
  have h_task := (h.ids r.id).tasks i .opens (by rw [h_at]; rfl)
  rw [h_at] at h_task
  refine h.moves (k := r.id) rfl rfl rfl rfl rfl (taskAt_resume rfl (not_done_of_eq h_at (by simp)) _)
    ?_ ?_ ⟨h_task.1, h_task.2.1, h_task.2.2, h.module_eq h_at h_careful⟩ ?_ ?_ ?_
  · rintro id kind ⟨⟩
    rfl
  · rw [h_at]
    rintro id kind ⟨⟩
    rfl
  · rintro kind ⟨⟩ j kind' h_ne h_j
    exact (h.ids r.id).apart i j .opens kind' (Ne.symm h_ne) (by rw [h_at]; rfl) h_j
  · intro p found h_p
    rw [h_at] at h_p
    cases h_p
  · refine .inr fun rest h_rest => ?_
    rintro id kind ⟨⟩
    exact ⟨rfl, (h.boot rest h_rest).not_mem (by rw [h_at]; rfl)⟩

/-- A task ends; nothing else changes. -/
theorem Inv.ends (h : Inv s) (h_at : s.taskAt i = t) (h_done : t ≠ .done)
    (h_building : ∀ p found, t = .building p found → s.records p.id = none)
    (records : s₁.records = s.records) (folders : s₁.folders = s.folders)
    (loaded : s₁.loaded = s.loaded) (boot : s₁.boot = s.boot) (failures : s₁.failures = s.failures)
    (tasks : s₁.tasks = s.tasks) : Inv (resume i (s₁, .done)) := by
  have h_tasks : (resume i (s₁, .done)).taskAt = Function.update s.taskAt i .done :=
    taskAt_resume tasks (not_done_of_eq h_at h_done) .done
  cases h_about : t.about with
  | none =>
    refine h.moves (k := "") records folders loaded boot failures h_tasks (by rintro _ _ ⟨⟩) ?_ trivial
      (by rintro _ ⟨⟩) (fun p found h_p => h_building p found (h_at.symm.trans h_p))
      (.inr fun rest _ => by rintro _ _ ⟨⟩)
    rw [h_at, h_about]
    rintro _ _ ⟨⟩
  | some about =>
    refine h.moves (k := about.1) records folders loaded boot failures h_tasks (by rintro _ _ ⟨⟩) ?_
      trivial (by rintro _ ⟨⟩) (fun p found h_p => h_building p found (h_at.symm.trans h_p))
      (.inr fun rest _ => by rintro _ _ ⟨⟩)
    rw [h_at, h_about]
    rintro _ _ ⟨⟩
    rfl

theorem Inv.activateReturns {r : Stored} {code : Code} (h : Inv s)
    (h_at : s.taskAt i = .running r code) :
    Inv (resume i ((s.setLoaded r.id (some ⟨r, code⟩)).writeRecord r.id fun x =>
      { x with status := .active }, .done)) := by
  obtain ⟨h_honoured, -, h_about, h_others⟩ :=
    h.opening (show (s.taskAt i).opened = some r by rw [h_at]; rfl)
  have h_task := (h.ids r.id).tasks i .opens h_about
  rw [h_at] at h_task
  have h_boot : ∀ rest, s.boot = some rest → r.id ∉ rest.map Stored.id := fun rest h_rest =>
    (h.boot rest h_rest).not_mem h_about
  have h_loads : Inv (resume i (s.setLoaded r.id (some ⟨r, code⟩), .done)) := by
    refine h.loads (k := r.id) rfl rfl rfl rfl rfl
      (taskAt_resume rfl (not_done_of_eq h_at (by simp)) .done) (by rintro _ ⟨⟩) (by rintro _ _ ⟨⟩) ?_
      ?_ trivial ?_ (fun j kind h_ne h_j h_kind => absurd (h_others j kind h_ne h_j) h_kind)
      (fun rest h_rest => ⟨h_boot rest h_rest, by rintro _ _ ⟨⟩⟩)
    · rw [h_at]
      rintro id kind ⟨⟩
      rfl
    · intro p found h_p
      rw [h_at] at h_p
      cases h_p
    · rintro x ⟨⟩
      exact ⟨rfl, h_honoured, by rw [ownCode, if_pos h_task.2.2.1, h_task.2.2.2]⟩
  exact h_loads.setStatus (.inr h_boot)

theorem Inv.activateThrows {r : Stored} {code : Code} (h : Inv s)
    (h_at : s.taskAt i = .running r code) (h_keeps : s.keepsGrants r.id r.granted (some i) = true) :
    Inv (resume i (s.setRecord r.id (some { r with status := .error }), .done)) := by
  obtain ⟨⟨r', h_r', -, h_package, h_sub⟩, h_enabled, h_about, -⟩ :=
    h.opening (show (s.taskAt i).opened = some r by rw [h_at]; rfl)
  obtain ⟨h_active, h_opening⟩ := keepsGrants_spec h_keeps
  have h_ended : Inv (resume i (s, .done)) :=
    h.ends h_at (by simp) (by rintro _ _ ⟨⟩) rfl rfl rfl rfl rfl rfl
  have h_tasks : (resume i (s, .done)).taskAt = Function.update s.taskAt i .done :=
    taskAt_resume rfl (not_done_of_eq h_at (by simp)) .done
  refine h_ended.rewrites h_r' rfl rfl rfl rfl rfl rfl h_package.symm ?_
    (fun l h_l => ⟨h_enabled, h_active l h_l⟩) (fun j x h_x h_id => ⟨h_enabled, ?_⟩) (.inr ?_)
  · intro c h_c
    have h_requires := ((h.ids r.id).row r' h_r').2 c (h_sub c h_c)
    rw [h_package] at h_requires
    exact h_requires
  · rw [h_tasks] at h_x
    by_cases h_j : j = i
    · rw [h_j, Function.update_self] at h_x
      cases h_x
    · rw [Function.update_of_ne h_j] at h_x
      exact h_opening j x (by simpa using h_j) h_x h_id
  · exact fun rest h_rest => (h.boot rest h_rest).not_mem h_about

theorem Inv.deactivateReturns {closer : Closer} (h : Inv s)
    (h_at : s.taskAt i = .deactivating closer) :
    Inv (resume i (s.setLoaded closer.id none, .deactivated closer)) := by
  have h_about : (s.taskAt i).about = some (closer.id, closer.kind) := by rw [h_at]; rfl
  have h_task := (h.ids closer.id).tasks i closer.kind h_about
  rw [h_at] at h_task
  have h_boot := h.boot_none h_about closer.kind_ne_opens
  refine h.loads (k := closer.id) (l := none) rfl rfl rfl rfl rfl
    (taskAt_resume rfl (not_done_of_eq h_at (by simp)) _) (fun kind h_kind => h_about.trans h_kind)
    (fun id kind h_kind => (congrArg Prod.fst (Option.some.inj h_kind)).symm) ?_ ?_ ?_
    (by rintro _ ⟨⟩) (fun _ _ _ _ _ => rfl) (fun rest h_rest => ?_)
  · rw [h_at]
    exact fun id kind h_kind => (congrArg Prod.fst (Option.some.inj h_kind)).symm
  · intro p found h_p
    rw [h_at] at h_p
    cases h_p
  · have h_none : Function.update s.loaded closer.id none closer.id = none :=
      Function.update_self closer.id none s.loaded
    refine ⟨?_, h_none⟩
    cases closer with
    | install p found => exact h_task
    | _ => trivial
  · rw [h_boot] at h_rest
    cases h_rest

/-- What else may be under way for an extension that is being closed. -/
theorem Inv.others {k : Kind} (h : Inv s) (h_about : (s.taskAt i).about = some (id, k)) :
    ∀ j kind, j ≠ i → (s.taskAt j).about = some (id, kind) → k.conflicts kind = false :=
  fun j kind h_ne h_j => (h.ids id).apart i j k kind (Ne.symm h_ne) h_about h_j

theorem Inv.disables (h : Inv s) (h_at : s.taskAt i = .deactivated (.disable id)) :
    Inv (resume i (s.writeRecord id fun r => { r with enabled := false, status := .disabled },
      .done)) := by
  have h_about : (s.taskAt i).about = some (id, .disables) := by rw [h_at]; rfl
  have h_task := (h.ids id).tasks i .disables h_about
  rw [h_at] at h_task
  have h_ended : Inv (resume i (s, .done)) :=
    h.ends h_at (by simp) (by rintro _ _ ⟨⟩) rfl rfl rfl rfl rfl rfl
  have h_tasks : (resume i (s, .done)).taskAt = Function.update s.taskAt i .done :=
    taskAt_resume rfl (not_done_of_eq h_at (by simp)) .done
  cases h_r : s.records id with
  | none =>
    have h_same : s.writeRecord id (fun r => { r with enabled := false, status := .disabled }) = s := by
      have h_update : Function.update s.records id none = s.records := by
        rw [← h_r]
        exact Function.update_eq_self id s.records
      rw [writeRecord, setRecord, h_r, Option.map_none, h_update]
    rw [h_same]
    exact h_ended
  | some r =>
    refine h_ended.rewrites (q := { r with enabled := false, status := .disabled }) h_r ?_ rfl rfl rfl
      rfl rfl rfl ((h.ids id).row r h_r).2 (fun l h_l => ?_) (fun j x h_x h_id => ?_)
      (.inl (h.boot_none h_about (by simp)))
    · show Function.update s.records id ((s.records id).map _) = _
      rw [h_r]
      rfl
    · rw [show (resume i (s, .done)).loaded id = s.loaded id from rfl,
        show s.loaded id = none from h_task.2] at h_l
      cases h_l
    · -- No task is opening what is being disabled.
      rw [h_tasks] at h_x
      by_cases h_j : j = i
      · rw [h_j, Function.update_self] at h_x
        cases h_x
      · rw [Function.update_of_ne h_j] at h_x
        have h_not := h.others h_about j .opens h_j (about_of_opened h_x h_id)
        cases h_not

theorem Inv.removes (h : Inv s) (h_at : s.taskAt i = .deactivated (.remove id)) :
    Inv (resume i ((s.setRecord id none).setFolder id .missing, .done)) := by
  have h_about : (s.taskAt i).about = some (id, .removes) := by rw [h_at]; rfl
  have h_task := (h.ids id).tasks i .removes h_about
  rw [h_at] at h_task
  refine h.replaces (k := id) rfl rfl rfl (h.boot_none h_about (by simp))
    (taskAt_resume rfl (not_done_of_eq h_at (by simp)) .done) h.failures (by rintro _ _ ⟨⟩) ?_
    (by rintro _ ⟨⟩) (by rintro _ ⟨⟩) h_task.2 trivial fun j kind h_ne h_j => ?_
  · rw [h_at]
    rintro _ _ ⟨⟩
    rfl
  · have h_kind := h.others h_about j kind h_ne h_j
    cases kind with
    | disables => exact .inl rfl
    | removes => exact .inr ⟨rfl, rfl⟩
    | _ => cases h_kind

theorem Inv.installs {p : Package} {found : Snapshot} {copies : Bool} (h : Inv s)
    (h_at : s.taskAt i = .deactivated (.install p found))
    (h_copies : copies = true ∨ s.records p.id = none) :
    Inv (resume i (s.copyFiles p found copies)) := by
  have h_about : (s.taskAt i).about = some (p.id, .installs) := by rw [h_at]; rfl
  have h_task := (h.ids p.id).tasks i .installs h_about
  rw [h_at] at h_task
  refine h.copyFiles p found copies (i := i) (h.boot_none h_about (by simp))
    h_task.1 h_task.2 h_copies ?_
    (fun j kind h_ne h_j => disables_of_installs (h.others h_about j kind h_ne h_j))
    rfl rfl rfl rfl rfl
    (taskAt_resume (tasks_copyFiles s p found copies) (not_done_of_eq h_at (by simp)) _)
  rw [h_at]
  rintro _ _ ⟨⟩
  rfl

theorem Inv.builds {p : Package} {found : Snapshot} (h : Inv s)
    (h_at : s.taskAt i = .building p found) :
    Inv (resume i (s.setRecord p.id (some (installed p)), .done)) := by
  have h_about : (s.taskAt i).about = some (p.id, .installs) := by rw [h_at]; rfl
  have h_task := (h.ids p.id).tasks i .installs h_about
  rw [h_at] at h_task
  have h_folder : Function.update s.folders p.id (.holds p) = s.folders := by
    rw [← h_task.2.2]
    exact Function.update_eq_self p.id s.folders
  refine h.replaces (k := p.id) (f := .holds p) rfl h_folder.symm rfl (h.boot_none h_about (by simp))
    (taskAt_resume rfl (not_done_of_eq h_at (by simp)) .done) h.failures (by rintro _ _ ⟨⟩) ?_ ?_ ?_
    h_task.2.1 trivial (fun j kind h_ne h_j =>
      .inl (disables_of_installs (h.others h_about j kind h_ne h_j)))
  · rw [h_at]
    rintro _ _ ⟨⟩
    rfl
  · rintro x ⟨⟩
    exact ⟨rfl, by simp [installed]⟩
  · rintro x ⟨⟩
    exact .inl rfl

theorem Inv.buildFails {p : Package} {found : Snapshot} (h : Inv s)
    (h_at : s.taskAt i = .building p found) (h_none : s.records p.id = none) :
    Inv (resume i (s.fails p.id found, .done)) := by
  have h_task := (h.ids p.id).tasks i .installs (by rw [h_at]; rfl)
  rw [h_at] at h_task
  have h_failed : Inv (s.fails p.id found) := h.fails fun h_some => by
    have h_record := h_task.1 h_some
    rw [h_none] at h_record
    cases h_record
  refine h_failed.ends h_at (by simp) ?_ rfl rfl rfl rfl rfl rfl
  rintro _ _ ⟨⟩
  exact h_none

/-- A new process finds records and folders that agree. -/
theorem Inv.restart {ids : List ExtId} (h : Inv s) (h_nodup : ids.Nodup)
    (h_careful : careful cwd s (.restart ids) = true) :
    Inv { s with
      loaded := fun _ => none
      cache := fun _ => none
      tasks := []
      boot := some ((ids.filterMap s.records).filter fun r => r.enabled && r.status ≠ .error) } where
  ids id := by
    refine ⟨(h.ids id).row, fun r h_r => ?_, by rintro _ ⟨⟩, by rintro _ _ ⟨⟩, by rintro _ _ _ _ _ ⟨⟩⟩
    obtain h_folder | ⟨j, p, found, h_j, h_p⟩ := (h.ids id).folder r h_r
    · exact .inl h_folder
    · have h_about : (s.taskAt j).about = some (p.id, .installs) := by
        rw [h_j]
        rfl
      have h_mem := mem_of_about h_about
      have h_none := List.all_eq_true.mp h_careful _ h_mem
      rw [h_j] at h_none
      have h_absent : s.records p.id = none := Option.isNone_iff_eq_none.mp h_none
      rw [h_p, show s.records id = some r from h_r] at h_absent
      cases h_absent
  boot rest h_rest := by
    cases h_rest
    have h_records : ∀ r ∈ ids.filterMap s.records, s.records r.id = some r := by
      intro r h_r
      obtain ⟨id, -, h_id⟩ := List.mem_filterMap.mp h_r
      rw [((h.ids id).row r h_id).1]
      exact h_id
    refine ⟨fun r h_r => ?_, ?_, by rintro _ _ _ ⟨⟩⟩
    · obtain ⟨h_mem, h_enabled⟩ := List.mem_filter.mp h_r
      rw [Bool.and_eq_true] at h_enabled
      exact ⟨⟨r, h_records r h_mem, h_enabled.1, rfl, fun c h_c => h_c⟩, h_enabled.1⟩
    · have h_ids : ((ids.filterMap s.records).map Stored.id).Sublist ids := by
        clear h_nodup h_careful h_records
        induction ids with
        | nil => exact .slnil
        | cons id ids ih =>
          cases h_id : s.records id with
          | none =>
            rw [List.filterMap_cons_none h_id]
            exact ih.cons id
          | some r =>
            rw [List.filterMap_cons_some h_id, List.map_cons, ((h.ids id).row r h_id).1]
            exact ih.cons₂ id
      exact h_nodup.sublist ((List.filter_sublist.map Stored.id).trans h_ids)
  failures := h.failures

theorem Inv.bootNext {r : Stored} {rest : List Stored} {registers : Bool} (h : Inv s)
    (h_boot : s.boot = some (r :: rest)) (h_tasks : s.tasks.all (fun t => t = .done) = true) :
    Inv (push ({ s with boot := some rest }.activate r registers)) := by
  have h_ahead := h.boot (r :: rest) h_boot
  obtain ⟨h_fresh, h_nodup⟩ := List.nodup_cons.mp h_ahead.nodup
  have h_idle : ∀ j id kind, (s.taskAt j).about ≠ some (id, kind) := by
    intro j id kind h_j
    have h_done := List.all_eq_true.mp h_tasks _ (mem_of_about h_j)
    rw [decide_eq_true_eq] at h_done
    rw [h_done] at h_j
    cases h_j
  have h_popped : Inv { s with boot := some rest } := by
    refine ⟨fun id => ⟨(h.ids id).row, (h.ids id).folder, (h.ids id).active, fun j kind h_j =>
      absurd h_j (h_idle j id kind), (h.ids id).apart⟩, ?_, h.failures⟩
    rintro _ ⟨⟩
    exact ⟨fun x h_x => h_ahead.honoured x (List.mem_cons_of_mem _ h_x), h_nodup,
      fun j id kind h_j => absurd h_j (h_idle j id kind)⟩
  obtain ⟨h_honoured, h_enabled⟩ := h_ahead.honoured r List.mem_cons_self
  refine h_popped.activate h_honoured h_enabled (fun j kind h_j => absurd h_j (h_idle j r.id kind)) ?_
  rintro _ ⟨⟩
  exact h_fresh

theorem Inv.step {e : Event} (h : Inv s) (h_careful : careful cwd s e = true)
    (h_step : step cwd s e = some s') : Inv s' := by
  have h_request : s.boot = none → Consent.request s e = some s' → Inv s' := fun h_boot h_s' =>
    h.request h_boot h_careful h_s'
  have h_served : (if s.boot.isNone then Consent.request s e else none) = some s' → Inv s' := by
    intro h_s'
    split at h_s'
    · rename_i h_none
      exact h_request (Option.isNone_iff_eq_none.mp h_none) h_s'
    · cases h_s'
  cases e with
  | restart ids =>
    simp only [Consent.step] at h_step
    split at h_step
    · rename_i h_nodup
      cases h_step
      exact h.restart h_nodup h_careful
    · cases h_step
  | bootNext registers =>
    simp only [Consent.step] at h_step
    split at h_step
    · rename_i r rest h_boot
      split at h_step
      · rename_i h_tasks
        cases h_step
        exact h.bootNext h_boot h_tasks
      · cases h_step
    · cases h_step
  | bootEnds =>
    simp only [Consent.step] at h_step
    split at h_step
    · cases h_step
      exact ⟨fun id => ⟨(h.ids id).row, (h.ids id).folder, (h.ids id).active, fun j kind h_j =>
        ((h.ids id).tasks j kind h_j).congr h_j rfl rfl rfl, (h.ids id).apart⟩, by rintro _ ⟨⟩,
        h.failures⟩
    · cases h_step
  | moduleLoads i =>
    simp only [Consent.step] at h_step
    split at h_step
    · rename_i r h_at
      cases h_step
      exact h.moduleLoads h_at h_careful
    · cases h_step
  | moduleThrows i cached =>
    simp only [Consent.step] at h_step
    split at h_step
    · rename_i r h_at
      cases h_step
      cases cached with
      | true => exact h.ends h_at (by simp) (by rintro _ _ ⟨⟩) rfl rfl rfl rfl rfl rfl
      | false => exact h.ends h_at (by simp) (by rintro _ _ ⟨⟩) rfl rfl rfl rfl rfl rfl
    · cases h_step
  | activateReturns i =>
    simp only [Consent.step] at h_step
    split at h_step
    · rename_i r code h_at
      cases h_step
      exact h.activateReturns h_at
    · cases h_step
  | activateThrows i =>
    simp only [Consent.step] at h_step
    split at h_step
    · rename_i r code h_at
      cases h_step
      simp only [careful, h_at] at h_careful
      exact h.activateThrows h_at h_careful
    · cases h_step
  | deactivateReturns i =>
    simp only [Consent.step] at h_step
    split at h_step
    · rename_i closer h_at
      cases h_step
      exact h.deactivateReturns h_at
    · cases h_step
  | closerResumes i copies =>
    simp only [Consent.step] at h_step
    split at h_step
    · rename_i closer h_at
      cases h_step
      cases closer with
      | install p found =>
        simp only [careful, h_at, Bool.or_eq_true, Option.isNone_iff_eq_none] at h_careful
        exact h.installs h_at h_careful
      | disable id => exact h.disables h_at
      | remove id => exact h.removes h_at
    · cases h_step
  | builds i =>
    simp only [Consent.step] at h_step
    split at h_step
    · rename_i p found h_at
      cases h_step
      exact h.builds h_at
    · cases h_step
  | buildFails i =>
    simp only [Consent.step] at h_step
    split at h_step
    · rename_i p found h_at
      cases h_step
      simp only [careful, h_at, Option.isNone_iff_eq_none] at h_careful
      exact h.buildFails h_at h_careful
    · cases h_step
  | rejected id => exact h_served h_step
  | install p copies => exact h_served h_step
  | consent id capabilities => exact h_served h_step
  | enable id registers => exact h_served h_step
  | disable id => exact h_served h_step
  | remove id => exact h_served h_step

theorem Inv.consented (h : Inv s) : Consented s where
  active id l h_l := by
    obtain ⟨h_id, ⟨r, h_r, h_enabled, h_package, h_sub⟩, h_code⟩ := (h.ids id).active l h_l
    rw [h_id] at h_r
    refine ⟨r, h_r, h_enabled, fun c h_c => ⟨h_sub c h_c, ((h.ids id).row r h_r).2 c (h_sub c h_c)⟩,
      ?_, ?_⟩
    · obtain h_folder | ⟨j, p, found, h_j, h_p⟩ := (h.ids id).folder r h_r
      · exact h_folder
      · -- Nothing is active while its frontend is built.
        have h_task := (h.ids id).tasks j .installs (by rw [h_j, ← h_p]; rfl)
        rw [h_j] at h_task
        rw [← h_p, h_task.2.1] at h_l
        cases h_l
    · rw [h_code, h_package]
  failures := h.failures

end Careful

/-- In every careful run only what was consented to runs, and no failed install spoils an
    extension that was there. -/
theorem consented_of_reachableUnder (cwd : Path) {s : Panel}
    (h : (machine cwd).ReachableUnder (fun s e => careful cwd s e = true) s) : Consented s := by
  have h_inv : Inv s := by
    refine h.invariant ?_ fun _ _ _ h_inv h_careful h_step => h_inv.step h_careful h_step
    rintro _ rfl
    refine ⟨fun id => ⟨?_, ?_, ?_, ?_, ?_⟩, ?_, ?_⟩
    · rintro r ⟨⟩
    · rintro r ⟨⟩
    · rintro l ⟨⟩
    · rintro i k ⟨⟩
    · rintro i j k k' _ ⟨⟩
    · rintro rest ⟨⟩
    · rintro f ⟨⟩
  exact h_inv.consented

/-- An upload of one extension that asks for the servers. -/
def upload (n : Nat) : Package where
  manifest := ⟨"com.a", [.serversRead], [], true, false⟩
  entry := "index.ts"
  upload := n

/-- Installed, consented to, and active. -/
def turnOn (n i : Nat) : List Event :=
  [.install (upload n) true, .consent "com.a" [.serversRead, .storage], .enable "com.a" true,
    .moduleLoads i, .activateReturns i]

/-- Switched off, while nothing else is under way. -/
def turnOff (i : Nat) : List Event :=
  [.disable "com.a", .deactivateReturns i, .closerResumes i true]

/-- On, off, and a reinstall that a new process runs. -/
def reinstalledAfterRestart : List Event :=
  turnOn 1 1 ++ turnOff 2 ++ [.install (upload 2) true, .consent "com.a" [.serversRead],
    .restart ["com.a"], .bootEnds, .enable "com.a" true, .moduleLoads 0, .activateReturns 0]

theorem consented_reinstalledAfterRestart :
    ∃ s, (machine []).runUnder (careful []) {} reinstalledAfterRestart = some s ∧
      (s.loaded "com.a").map Loaded.code = some (some (upload 2)) ∧ Consented s := by
  have h_run := (Option.some_get
    (x := (machine []).runUnder (careful []) {} reinstalledAfterRestart) rfl).symm
  exact ⟨_, h_run, rfl, consented_of_reachableUnder []
    ((machine []).reachableUnder_of_runUnder (s := {}) reinstalledAfterRestart (.init rfl) h_run)⟩

/-! ## The module of an old package -/

/-- On, off, and a reinstall that the same process runs. -/
def reinstalledAtOnce : List Event := turnOn 1 1 ++ turnOff 2 ++ turnOn 2 4

/-- Consent was given for the second upload, and the module of the first one runs. -/
theorem old_module_runs :
    ¬ ∀ (cwd : Path) (s : Panel), (machine cwd).Reachable s → Consented s := by
  intro h
  have h_run := (Option.some_get (x := (machine []).run {} reinstalledAtOnce) rfl).symm
  have h_consented := h [] _ ((machine []).reachable_of_run (s := {}) reinstalledAtOnce (.init rfl) h_run)
  obtain ⟨r, h_r, -, -, -, h_code⟩ := h_consented.active "com.a" ⟨⟨upload 2, true, [.serversRead],
    .installed⟩, some (upload 1)⟩ rfl
  have h_package : r.package = upload 2 := by
    cases h_r
    rfl
  rw [h_package] at h_code
  exact absurd h_code (by decide)

end Kubek.Extensions.Consent
