/-
  Kubek.Access.Areas

  The areas and levels of the panel's access control and who may do what with them
  (shared/access/areas.ts, shared/access/can.ts, core/utils/serverAccess.ts).
-/

import Kubek.Core.ServerLocks
import Kubek.Lib.JsObject

namespace Kubek.Access

open JsMap

/-! ## Areas and levels -/

inductive AccessArea
  | console
  | power
  | settings
  | files
  | content
  | players
  | backups
  | scheduler
  | servers
  | networks
  | accounts
  | audit
  | monitoring
  | java
  | storages
  | integrations
  | assistant
  | panel
  deriving DecidableEq, Repr

/-- The value of the enum member. -/
def AccessArea.text : AccessArea → String
  | .console => "console"
  | .power => "power"
  | .settings => "settings"
  | .files => "files"
  | .content => "content"
  | .players => "players"
  | .backups => "backups"
  | .scheduler => "scheduler"
  | .servers => "servers"
  | .networks => "networks"
  | .accounts => "accounts"
  | .audit => "audit"
  | .monitoring => "monitoring"
  | .java => "java"
  | .storages => "storages"
  | .integrations => "integrations"
  | .assistant => "assistant"
  | .panel => "panel"

inductive AccessLevel
  | read
  | write
  | manage
  deriving DecidableEq, Repr

def AccessLevel.text : AccessLevel → String
  | .read => "read"
  | .write => "write"
  | .manage => "manage"

/-- `RANK`. -/
def AccessLevel.rank : AccessLevel → Nat
  | .read => 1
  | .write => 2
  | .manage => 3

/-- `AccessMap`, a partial record. -/
abbrev AccessMap := JsObject AccessArea AccessLevel

/-- `AREA_LEVELS`: levels that mean something in an area. -/
def areaLevels : AccessArea → List AccessLevel
  | .console => [.read, .write]
  | .servers => [.write, .manage]
  | .audit | .storages | .assistant => [.read, .manage]
  | .monitoring => [.read]
  | .integrations | .panel => [.manage]
  | .power | .settings | .files | .content | .players | .backups | .scheduler
  | .networks | .accounts | .java => [.read, .write, .manage]

/-- `SERVER_AREAS`: areas checked against the account's server list. -/
def serverAreas : List AccessArea :=
  [.console, .power, .settings, .files, .content, .players, .backups, .scheduler]

def isAreaLevel (area : AccessArea) (level : AccessLevel) : Bool :=
  (areaLevels area).contains level

def levelAtLeast (level : Option AccessLevel) (needed : AccessLevel) : Bool :=
  match level with
  | none => false
  | some l => needed.rank ≤ l.rank

def maxLevel : Option AccessLevel → Option AccessLevel → Option AccessLevel
  | none, b => b
  | some a, none => some a
  | some a, some b => if b.rank ≤ a.rank then some a else some b

/-- The inner loop of `mergeAccess`: one entry joins the merged map. -/
def mergeEntry (merged : AccessMap) (entry : AccessArea × AccessLevel) : AccessMap :=
  match maxLevel (merged.get entry.1) (some entry.2) with
  | some level => merged.set entry.1 level
  | none => merged

/-- `mergeAccess`: highest level per area over all maps. -/
def mergeAccess (maps : List AccessMap) : AccessMap :=
  maps.foldl (fun merged map => map.entries.foldl mergeEntry merged) .empty

/-- Levels that do not exist in their area are dropped, on write and on read. -/
def levels (raw : AccessMap) : AccessMap := raw.filter fun e => isAreaLevel e.1 e.2

/-! ## What a merge grants -/

theorem levelAtLeast_maxLevel (a b : Option AccessLevel) (needed : AccessLevel) :
    levelAtLeast (maxLevel a b) needed = (levelAtLeast a needed || levelAtLeast b needed) := by
  rcases a with _ | a <;> rcases b with _ | b
  · rfl
  · rfl
  · simp [maxLevel, levelAtLeast]
  · simp only [maxLevel, levelAtLeast]
    by_cases h : b.rank ≤ a.rank
    · have h_iff : needed.rank ≤ a.rank ↔ needed.rank ≤ a.rank ∨ needed.rank ≤ b.rank := by omega
      rw [if_pos h, ← Bool.decide_or]
      exact decide_eq_decide.mpr h_iff
    · have h_iff : needed.rank ≤ b.rank ↔ needed.rank ≤ a.rank ∨ needed.rank ≤ b.rank := by omega
      rw [if_neg h, ← Bool.decide_or]
      exact decide_eq_decide.mpr h_iff

theorem levelAtLeast_mergeEntry (merged : AccessMap) (entry : AccessArea × AccessLevel)
    (area : AccessArea) (needed : AccessLevel) :
    levelAtLeast ((mergeEntry merged entry).get area) needed = true ↔
      levelAtLeast (merged.get area) needed = true ∨
        (entry.1 = area ∧ levelAtLeast (some entry.2) needed = true) := by
  obtain ⟨a, l⟩ := entry
  have h_max := levelAtLeast_maxLevel (merged.get a) (some l) needed
  have h_some : ∃ m, maxLevel (merged.get a) (some l) = some m := by
    cases merged.get a with
    | none => exact ⟨l, rfl⟩
    | some m =>
      simp only [maxLevel]
      split
      · exact ⟨m, rfl⟩
      · exact ⟨l, rfl⟩
  obtain ⟨m, hm⟩ := h_some
  rw [hm] at h_max
  simp only [mergeEntry, hm, JsObject.get_set]
  by_cases h : area = a
  · subst h
    simp [h_max]
  · simp [h, Ne.symm h]

theorem levelAtLeast_foldl_mergeEntry (entries : List (AccessArea × AccessLevel))
    (merged : AccessMap) (area : AccessArea) (needed : AccessLevel) :
    levelAtLeast ((entries.foldl mergeEntry merged).get area) needed = true ↔
      levelAtLeast (merged.get area) needed = true ∨
        ∃ level, (area, level) ∈ entries ∧ levelAtLeast (some level) needed = true := by
  induction entries generalizing merged with
  | nil => simp
  | cons e es ih =>
    rw [List.foldl_cons, ih, levelAtLeast_mergeEntry]
    obtain ⟨a, l⟩ := e
    constructor
    · rintro ((h | ⟨rfl, h⟩) | ⟨level, h_mem, h⟩)
      · exact .inl h
      · exact .inr ⟨l, List.mem_cons_self, h⟩
      · exact .inr ⟨level, List.mem_cons_of_mem _ h_mem, h⟩
    · rintro (h | ⟨level, h_mem, h⟩)
      · exact .inl (.inl h)
      · rcases List.mem_cons.mp h_mem with h_eq | h_mem
        · cases h_eq
          exact .inl (.inr ⟨rfl, h⟩)
        · exact .inr ⟨level, h_mem, h⟩

/-- A map grants a level when one of its entries does. -/
theorem levelAtLeast_get_iff (map : AccessMap) (area : AccessArea) (needed : AccessLevel) :
    levelAtLeast (map.get area) needed = true ↔
      ∃ level, (area, level) ∈ map.entries ∧ levelAtLeast (some level) needed = true := by
  cases h : map.get area with
  | none =>
    refine iff_of_false (by simp [levelAtLeast]) ?_
    rintro ⟨level, h_mem, -⟩
    rw [(map.get_eq_some_iff area level).mpr h_mem] at h
    cases h
  | some l =>
    constructor
    · intro h_level
      exact ⟨l, (map.get_eq_some_iff area l).mp h, h_level⟩
    · rintro ⟨level, h_mem, h_level⟩
      rw [(map.get_eq_some_iff area level).mpr h_mem] at h
      cases h
      exact h_level

/-- **A merge grants what one of its maps grants, and nothing else.** -/
theorem levelAtLeast_mergeAccess (maps : List AccessMap) (area : AccessArea)
    (needed : AccessLevel) :
    levelAtLeast ((mergeAccess maps).get area) needed = true ↔
      ∃ map ∈ maps, levelAtLeast (map.get area) needed = true := by
  have h_fold : ∀ (maps : List AccessMap) (merged : AccessMap),
      levelAtLeast ((maps.foldl (fun merged map => map.entries.foldl mergeEntry merged)
          merged).get area) needed = true ↔
        levelAtLeast (merged.get area) needed = true ∨
          ∃ map ∈ maps, levelAtLeast (map.get area) needed = true := by
    intro maps
    induction maps with
    | nil => simp
    | cons m ms ih =>
      intro merged
      rw [List.foldl_cons, ih, levelAtLeast_foldl_mergeEntry, ← levelAtLeast_get_iff]
      simp [or_assoc]
  rw [mergeAccess, h_fold]
  simp [levelAtLeast]

/-- A dropped level grants nothing; a kept one grants what it did. -/
theorem levelAtLeast_levels {raw : AccessMap} {area : AccessArea} {needed : AccessLevel}
    (h : levelAtLeast ((levels raw).get area) needed = true) :
    levelAtLeast (raw.get area) needed = true := by
  cases h_get : (levels raw).get area with
  | none =>
    rw [h_get] at h
    cases h
  | some level =>
    rw [h_get] at h
    rw [((raw.get_filter_eq_some_iff _ area level).mp h_get).1]
    exact h

/-! ## Subjects -/

/-- `UserServersRestrict`. -/
structure UserServersRestrict where
  enabled : Bool
  allowed : List ServerId
  deriving DecidableEq, Repr

/-- `UserAccess`: highest level per area and extension keys, from roles and personal
    ones. -/
structure UserAccess where
  levels : AccessMap
  ext : List String

/-- `AccessSubject`. -/
structure AccessSubject where
  isAdmin : Bool
  access : UserAccess
  serversRestrict : UserServersRestrict

def can (user : AccessSubject) (area : AccessArea) (level : AccessLevel) : Bool :=
  user.isAdmin || levelAtLeast (user.access.levels.get area) level

/-- Admins and accounts without a server list reach every server. -/
def reachesServer (user : AccessSubject) (server : ServerId) : Bool :=
  if user.isAdmin || !user.serversRestrict.enabled then true
  else user.serversRestrict.allowed.contains server

def canOnServer (user : AccessSubject) (area : AccessArea) (level : AccessLevel)
    (server : ServerId) : Bool :=
  can user area level && reachesServer user server

/-- Read in any server area is enough to see servers. -/
def seesServers (user : AccessSubject) : Bool :=
  serverAreas.any fun area => can user area .read

def canSeeServer (user : AccessSubject) (server : ServerId) : Bool :=
  seesServers user && reachesServer user server

/-- `seesAllServers` of serverAccess.ts. -/
def seesAllServers (isAdmin : Bool) (serversRestrict : UserServersRestrict) : Bool :=
  isAdmin || !serversRestrict.enabled

end Kubek.Access
