/-
  Kubek.Core.ServerFolders

  What `getSafeServerPath` (`core/utils/serverPath.ts`) makes of a server id: the comment
  there takes it for a single path segment, so every server has a folder of its own below
  `servers`.

  The check refuses separators and two dots. `assertSafeFileName`, further down in the same
  file, refuses a single dot as well; for an id it is a segment that goes nowhere.
-/

import Kubek.Core.Paths
import Kubek.Lib.LinkTree

namespace Kubek.Paths

open FileTree (Path IsName)

variable {cwd p q : Path} {a b s t : String}

/-- The folder that holds those of the servers. -/
def serversRoot (cwd : Path) : Path := resolve cwd "./servers"

/-- A proper child of `parent`, with nothing between. -/
def ChildOf (parent folder : Path) : Prop := ∃ name, IsName name ∧ folder = parent ++ [name]

/-- Neither folder is the other, or inside it. -/
def Apart (folder other : Path) : Prop := ¬ folder <+: other ∧ ¬ other <+: folder

/-- What an answer for a server has to be: in its folder, which is one below `servers`. -/
structure Jailed (cwd : Path) (serverId : String) (full : Path) : Prop where
  inside : serverBase cwd serverId <+: full
  child : ChildOf (serversRoot cwd) (serverBase cwd serverId)

/-! ## Accepted ids -/

/-- What the check of the id leaves through. -/
structure IsSegment (serverId : String) : Prop where
  nonempty : serverId ≠ ""
  noSlash : '/' ∉ serverId.toList
  notDots : serverId ≠ ".."

theorem isSegment_of_accepted (h : getSafeServerPath cwd a s = some p) : IsSegment a := by
  rw [getSafeServerPath] at h
  split at h
  · cases h
  rename_i h_check
  rw [Bool.or_eq_true, not_or] at h_check
  obtain ⟨h_empty, h_slash⟩ := h_check
  refine ⟨fun h_eq => h_empty (decide_eq_true h_eq), fun h_mem => h_slash ?_, ?_⟩
  · rw [hasSlashOrDots, Bool.or_eq_true, List.any_eq_true]
    exact .inl ⟨'/', h_mem, rfl⟩
  · rintro rfl
    exact h_slash (by decide +kernel)

theorem split_serverPath (h : '/' ∉ a.toList) :
    JsText.split '/' ("./servers/" ++ a) = [".", "servers", a] := by
  have h_text : ("./servers/" ++ a).toList =
      ['.'] ++ '/' :: ("servers".toList ++ '/' :: a.toList) := by
    rw [String.toList_append]
    rfl
  rw [JsText.split, h_text, JsText.splitChars_head (by decide),
    JsText.splitChars_head (by decide), JsText.splitChars_of_not_mem h]
  simp only [List.map_cons, List.map_nil, String.ofList_toList]

/-- An id adds one step to the folder of the servers. -/
theorem serverBase_eq (h : '/' ∉ a.toList) (cwd : Path) :
    serverBase cwd a = resolveOne (serversRoot cwd) a := by
  have h_relative : isAbsolute ("./servers/" ++ a) = false := by
    rw [isAbsolute, String.toList_append]
    rfl
  have h_root : serversRoot cwd = resolveFrom cwd [".", "servers"] := by
    rw [serversRoot, resolve, show JsText.split '/' "./servers" = [".", "servers"] by decide +kernel,
      show isAbsolute "./servers" = false by decide +kernel]
    rfl
  rw [serverBase, resolve, h_relative, split_serverPath h, h_root]
  rfl

/-- The step of every accepted id but one is down. -/
theorem serverBase_down (h : IsSegment a) (h_dot : a ≠ ".") (cwd : Path) :
    serverBase cwd a = serversRoot cwd ++ [a] := by
  rw [serverBase_eq h.noSlash, resolveOne, if_neg (not_or.mpr ⟨h.nonempty, h_dot⟩),
    if_neg h.notDots]

theorem serverBase_dot (cwd : Path) : serverBase cwd "." = serversRoot cwd := by
  rw [serverBase_eq (by decide), resolveOne, if_pos (.inr rfl)]

/-! ## The folders -/

theorem jailed_of_accepted (h : getSafeServerPath cwd a s = some p) (h_dot : a ≠ ".") :
    Jailed cwd a p := by
  have h_segment := isSegment_of_accepted h
  refine ⟨getSafeServerPath_pre h, a, ?_, serverBase_down h_segment h_dot cwd⟩
  exact ⟨h_segment.nonempty, h_dot, h_segment.notDots, h_segment.noSlash⟩

/-- For a dot the folder is the one that all servers share. -/
theorem not_jailed_dot (cwd p : Path) : ¬ Jailed cwd "." p := by
  rintro ⟨-, name, -, h_child⟩
  rw [serverBase_dot] at h_child
  have h_length := congrArg List.length h_child
  rw [List.length_append, List.length_singleton] at h_length
  omega

theorem eq_of_siblings {root : Path} {x y : String} (h : root ++ [x] <+: root ++ [y]) : x = y := by
  have h_eq := h.eq_of_length (by simp only [List.length_append, List.length_singleton])
  exact (List.cons.inj (List.append_cancel_left h_eq)).1

/-- Folders of different ids are apart. -/
theorem apart_of_ne (h_a : IsSegment a) (h_b : IsSegment b) (h_a_dot : a ≠ ".") (h_b_dot : b ≠ ".")
    (h_ne : a ≠ b) : Apart (serverBase cwd a) (serverBase cwd b) := by
  rw [serverBase_down h_a h_a_dot, serverBase_down h_b h_b_dot]
  exact ⟨fun h => h_ne (eq_of_siblings h), fun h => h_ne (eq_of_siblings h).symm⟩

/-- Of two accepted requests each stays in the folder of its own server, and the folders of
    different servers share nothing, exactly where neither id is a single dot. -/
theorem keepsServersApart_iff (h_a : getSafeServerPath cwd a s = some p)
    (h_b : getSafeServerPath cwd b t = some q) :
    (Jailed cwd a p ∧ Jailed cwd b q ∧
      (a ≠ b → Apart (serverBase cwd a) (serverBase cwd b))) ↔ a ≠ "." ∧ b ≠ "." := by
  constructor
  · rintro ⟨h_jail_a, h_jail_b, -⟩
    constructor
    · rintro rfl
      exact not_jailed_dot cwd p h_jail_a
    · rintro rfl
      exact not_jailed_dot cwd q h_jail_b
  · rintro ⟨h_a_dot, h_b_dot⟩
    refine ⟨jailed_of_accepted h_a h_a_dot, jailed_of_accepted h_b h_b_dot, ?_⟩
    exact apart_of_ne (isSegment_of_accepted h_a) (isSegment_of_accepted h_b) h_a_dot h_b_dot

/-- A world of one server and the root of another, whose name it begins with. -/
theorem keepsServersApart_lookalikes :
    Apart (serverBase ["panel"] "mc") (serverBase ["panel"] "mc-2") ∧
      getSafeServerPath ["panel"] "mc" "/plugins/../world//./level.dat" =
        some ["panel", "servers", "mc", "world", "level.dat"] := by
  have h_world : getSafeServerPath ["panel"] "mc" "/plugins/../world//./level.dat" =
      some ["panel", "servers", "mc", "world", "level.dat"] := by decide +kernel
  have h_other : getSafeServerPath ["panel"] "mc-2" "" = some ["panel", "servers", "mc-2"] := by
    decide +kernel
  obtain ⟨-, -, h_apart⟩ := (keepsServersApart_iff h_world h_other).mpr ⟨by decide, by decide⟩
  exact ⟨h_apart (by decide), h_world⟩

/-- A dot is accepted as an id: its folder is that of all servers, and what another server
    keeps is inside. -/
theorem dot_reaches_every_server :
    getSafeServerPath ["panel"] "." "mc/server.properties" =
        some ["panel", "servers", "mc", "server.properties"] ∧
      ¬ ∀ (cwd p q : Path) (a b s t : String), getSafeServerPath cwd a s = some p →
        getSafeServerPath cwd b t = some q → Jailed cwd a p ∧ Jailed cwd b q ∧
          (a ≠ b → Apart (serverBase cwd a) (serverBase cwd b)) := by
  have h_dot : getSafeServerPath ["panel"] "." "mc/server.properties" =
      some ["panel", "servers", "mc", "server.properties"] := by decide +kernel
  have h_mc : getSafeServerPath ["panel"] "mc" "" = some ["panel", "servers", "mc"] := by
    decide +kernel
  refine ⟨h_dot, fun h_all => ?_⟩
  obtain ⟨-, -, h_apart⟩ := h_all _ _ _ _ _ _ _ h_dot h_mc
  have h_bases : serverBase ["panel"] "." <+: serverBase ["panel"] "mc" := by
    rw [serverBase_dot, serverBase_eq (by decide)]
    exact List.prefix_append _ ["mc"]
  exact (h_apart (by decide)).1 h_bases

end Kubek.Paths
