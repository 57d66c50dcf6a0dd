/-
  Kubek.Modpacks.PackPaths

  Paths of a modpack (`modules/modpacks/mrpack/mrpack-paths.ts`) on a POSIX system.

  `targetOf` is where a path leads below the server folder. Whatever its spelling, a path
  that `safeRelativePath` lets through is written at that place and nowhere else
  (`jailPath_eq`), and the text it becomes leads there as well (`safe_target`).
-/

import Kubek.Core.PathText
import Kubek.Lib.Fallible

namespace Kubek.Modpacks

open FileTree (Path)
open Kubek.Paths
open Fallible

/-! ## Errors -/

inductive ModpackErrorCode
  | INVALID
  | LOADER_UNSUPPORTED
  | UNSAFE_PATH
  | DOWNLOAD_NOT_ALLOWED
  | NOT_FOUND
  deriving DecidableEq, Repr

structure MrpackError where
  code : ModpackErrorCode
  message : String
  deriving DecidableEq, Repr

/-- `unsafe(path)`. -/
def unsafePath (path : String) : MrpackError :=
  ⟨.UNSAFE_PATH, "Unsafe path in modpack: " ++ path⟩

/-! ## The functions -/

/-- `text.startsWith(front)`. -/
def startsWith (text front : String) : Bool := front.toList.isPrefixOf text.toList

/-- `text.slice(count)`. -/
def slice (text : String) (count : Nat) : String := String.ofList (text.toList.drop count)

/-- `/^[a-zA-Z]:/`. -/
def startsWithDrive (text : String) : Bool :=
  match text.toList with
  | c :: d :: _ => c.isAlpha && d == ':'
  | _ => false

/-- `safeRelativePath` of a text. -/
def safeRelativePath (raw : String) : Except MrpackError String :=
  if raw = "" || raw.toList.any (·.toNat == 0) then throw (unsafePath raw)
  else if raw.toList.any (· == '\\') || startsWith raw "/" || startsWithDrive raw ||
      isAbsolute raw then throw (unsafePath raw)
  else if (JsText.split '/' raw).any (· == "..") then throw (unsafePath raw)
  else
    let normalized := stripSlashes (normalize raw)
    if normalized = "" || normalized == "." || startsWith normalized "../" then
      throw (unsafePath raw)
    else pure normalized

def jailPath (base : Path) (relativePath : String) : Except MrpackError Path := do
  let path ← safeRelativePath relativePath
  let full := resolve base path
  if full = base || !isInside base full then throw (unsafePath relativePath)
  else pure full

inductive OverrideLayer
  | overrides
  | serverOverrides
  deriving DecidableEq, Repr

/-- A layer's folder in the archive. -/
def OverrideLayer.folder : OverrideLayer → String
  | .overrides => "overrides/"
  | .serverOverrides => "server-overrides/"

structure OverrideEntry where
  layer : OverrideLayer
  path : String
  deriving DecidableEq, Repr

/-- `entryName.replace(/^\.\//, "")`. -/
def withoutDot (name : String) : String := if startsWith name "./" then slice name 2 else name

/-- The entry below the folder of a layer. -/
def entryBelow (layer : OverrideLayer) (rest : String) : Except MrpackError (Option OverrideEntry) :=
  if rest = "" || rest.toList.getLast? == some '/' then pure none
  else do
    let path ← safeRelativePath rest
    pure (some ⟨layer, path⟩)

def overrideEntry (entryName : String) : Except MrpackError (Option OverrideEntry) :=
  let name := withoutDot entryName
  if startsWith name OverrideLayer.serverOverrides.folder then
    entryBelow .serverOverrides (slice name OverrideLayer.serverOverrides.folder.toList.length)
  else if startsWith name OverrideLayer.overrides.folder then
    entryBelow .overrides (slice name OverrideLayer.overrides.folder.toList.length)
  else pure none

/-! ## Where a path leads -/

/-- The names of a path, as `normalize` gathers them. -/
def targetOf (path : String) : Path := normalSegments path

section Targets

variable {raw path : String} {base full : Path} {segs : List String}

/-- With no `..` among them the segments are gathered as they stand. -/
theorem foldl_normalizeOne_filter {done : List String} (h : ".." ∉ segs) :
    segs.foldl (normalizeOne false) done =
      done ++ segs.filter fun s => s ≠ "" ∧ s ≠ "." := by
  induction segs generalizing done with
  | nil => simp
  | cons s segs ih =>
    have h_s : s ≠ ".." := fun h_eq => h (h_eq ▸ List.mem_cons_self)
    have h_rest : ".." ∉ segs := fun h_mem => h (List.mem_cons_of_mem s h_mem)
    rw [List.foldl_cons, ih h_rest, normalizeOne]
    by_cases h_skip : s = "" ∨ s = "."
    · rw [if_pos h_skip, List.filter_cons_of_neg]
      simpa only [ne_eq, decide_eq_true_eq, not_and_or, not_not] using h_skip
    · rw [if_neg h_skip, if_neg h_s, List.filter_cons_of_pos, List.append_assoc,
        List.singleton_append]
      simpa only [ne_eq, decide_eq_true_eq, not_or] using h_skip

/-- Names that lead down: none is empty, a dot or two. -/
structure Below (target : Path) : Prop where
  segments : Segments target
  climbsNot : ".." ∉ target
  nonempty : target ≠ []

theorem resolve_below {target : Path} (h : Below target) (base : Path) :
    resolve base ("/".intercalate target) = base ++ target := by
  obtain ⟨-, h_head, -⟩ := ends_intercalate h.segments h.nonempty
  have h_abs : isAbsolute ("/".intercalate target) = false := by
    rw [isAbsolute]
    simpa using h_head
  have h_names : ∀ (here : Path) (names : List String), Segments names → ".." ∉ names →
      resolveFrom here names = here ++ names := by
    intro here names h_segs h_dots
    induction names generalizing here with
    | nil => exact (List.append_nil here).symm
    | cons n names ih =>
      have h_n : resolveOne here n = here ++ [n] := by
        rw [resolveOne, if_neg (not_or.mpr ⟨h_segs.nonempty n List.mem_cons_self,
          h_segs.noDot n List.mem_cons_self⟩), if_neg fun h_eq : n = ".." => h_dots (h_eq ▸ List.mem_cons_self)]
      show resolveFrom (resolveOne here n) names = _
      rw [h_n, ih (here ++ [n]) h_segs.tail fun h_mem => h_dots (List.mem_cons_of_mem n h_mem),
        List.append_assoc, List.singleton_append]
  rw [resolve, h_abs, split_segments h.segments h.nonempty]
  exact h_names base target h.segments h.climbsNot

/-- Below a folder by path text, whatever the folder is called. -/
theorem isInside_append {target : Path} (h : ".." ∉ target) (base : Path) :
    isInside base (base ++ target) = true := by
  have h_rel : relative base (base ++ target) = target := by
    induction base with
    | nil => cases target <;> rfl
    | cons b base ih =>
      rw [List.cons_append, relative, if_pos rfl]
      exact ih
  rw [isInside, h_rel]
  cases target with
  | nil => rfl
  | cons t target =>
    have h_t : t ≠ ".." := fun h_eq => h (h_eq ▸ List.mem_cons_self)
    simpa using h_t

theorem stripSlashes_eq {text : String} (h : text.toList.getLast? ≠ some '/') :
    stripSlashes text = text := by
  have h_rev : text.toList.reverse.dropWhile (· == '/') = text.toList.reverse := by
    rw [List.getLast?_eq_head?_reverse] at h
    cases h_list : text.toList.reverse with
    | nil => rfl
    | cons c cs =>
      rw [h_list, List.head?_cons, ne_eq, Option.some.injEq] at h
      rw [List.dropWhile_cons_of_neg]
      simpa using h
  rw [stripSlashes, h_rev, List.reverse_reverse, String.ofList_toList]

theorem stripSlashes_slash (text : String) : stripSlashes (text ++ "/") = stripSlashes text := by
  rw [stripSlashes, String.toList_append]
  have h_rev : (text.toList ++ "/".toList).reverse = '/' :: text.toList.reverse := by
    rw [List.reverse_append]
    rfl
  rw [h_rev, List.dropWhile_cons_of_pos (by rfl)]
  rfl

/-- What `safeRelativePath` answers: the names in order, with one slash between two. -/
theorem safe_eq (h : safeRelativePath raw = .ok path) :
    path = "/".intercalate (targetOf raw) ∧ Below (targetOf raw) := by
  rw [safeRelativePath] at h
  obtain ⟨-, h⟩ := throw_else_eq_ok.mp h
  obtain ⟨h_front, h⟩ := throw_else_eq_ok.mp h
  obtain ⟨h_dots, h⟩ := throw_else_eq_ok.mp h
  obtain ⟨h_normal, h⟩ := throw_else_eq_ok.mp h
  have h_path : stripSlashes (normalize raw) = path := pure_eq_ok.mp h
  have h_abs : isAbsolute raw = false := by
    simp only [Bool.or_eq_true, not_or, Bool.not_eq_true] at h_front
    exact h_front.2
  have h_split : ".." ∉ JsText.split '/' raw := by
    intro h_mem
    exact h_dots (List.any_eq_true.mpr ⟨_, h_mem, beq_self_eq_true _⟩)
  have h_target : targetOf raw = (JsText.split '/' raw).filter fun s => s ≠ "" ∧ s ≠ "." := by
    rw [targetOf, normalSegments, h_abs, foldl_normalizeOne_filter h_split, List.nil_append]
  have h_climbs : ".." ∉ targetOf raw := by
    rw [h_target]
    exact fun h_mem => h_split (List.mem_of_mem_filter h_mem)
  have h_segs : Segments (targetOf raw) := (gathered_normalSegments raw).segments
  rw [normalize_eq] at h_normal h_path
  by_cases h_nil : normalSegments raw = []
  · -- what has no names becomes a dot, which is refused
    exfalso
    apply h_normal
    rw [if_pos h_nil, h_abs]
    cases raw.toList.getLast? == some '/' <;> rfl
  · obtain ⟨-, -, h_last⟩ := ends_intercalate h_segs h_nil
    have h_strip : stripSlashes ("/".intercalate (normalSegments raw)) =
        "/".intercalate (targetOf raw) := stripSlashes_eq h_last
    refine ⟨?_, h_segs, h_climbs, h_nil⟩
    rw [← h_path, if_neg h_nil, h_abs]
    cases raw.toList.getLast? == some '/' with
    | false => simpa using h_strip
    | true =>
      rw [if_pos rfl, stripSlashes_slash]
      simpa using h_strip

/-- The text leads where the path led. -/
theorem safe_target (h : safeRelativePath raw = .ok path) : targetOf path = targetOf raw := by
  obtain ⟨rfl, h_below⟩ := safe_eq h
  obtain ⟨-, h_head, -⟩ := ends_intercalate h_below.segments h_below.nonempty
  have h_abs : isAbsolute ("/".intercalate (targetOf raw)) = false := by
    rw [isAbsolute]
    simpa using h_head
  have h_keep : (targetOf raw).filter (fun s => s ≠ "" ∧ s ≠ ".") = targetOf raw := by
    apply List.filter_eq_self.mpr
    intro s h_s
    simpa using ⟨h_below.segments.nonempty s h_s, h_below.segments.noDot s h_s⟩
  show normalSegments ("/".intercalate (targetOf raw)) = targetOf raw
  rw [normalSegments, h_abs, split_segments h_below.segments h_below.nonempty,
    foldl_normalizeOne_filter h_below.climbsNot, h_keep, List.nil_append]

/-- A path is jailed at its names below the folder. -/
theorem jailPath_eq (h : jailPath base raw = .ok full) :
    full = base ++ targetOf raw ∧ Below (targetOf raw) := by
  obtain ⟨path, h_safe, h⟩ := bind_eq_ok.mp h
  obtain ⟨rfl, h_below⟩ := safe_eq h_safe
  obtain ⟨-, h⟩ := throw_else_eq_ok.mp h
  rw [resolve_below h_below] at h
  exact ⟨(pure_eq_ok.mp h).symm, h_below⟩

/-- Two texts that became safe paths are told apart by where they lead. -/
theorem safe_injective {raw' path' : String} (h : safeRelativePath raw = .ok path)
    (h' : safeRelativePath raw' = .ok path') (h_eq : targetOf raw = targetOf raw') :
    path = path' := by
  rw [(safe_eq h).1, (safe_eq h').1, h_eq]

/-- The path of an override is safe, so it leads where the name led. -/
theorem below_of_overrideEntry {entry : OverrideEntry}
    (h : overrideEntry raw = .ok (some entry)) : ∃ rest, safeRelativePath rest = .ok entry.path := by
  have h_below : ∀ layer rest, entryBelow layer rest = .ok (some entry) →
      safeRelativePath rest = .ok entry.path := by
    intro layer rest h_entry
    rw [entryBelow] at h_entry
    split at h_entry
    · cases h_entry
    · obtain ⟨path, h_safe, h_entry⟩ := bind_eq_ok.mp h_entry
      obtain rfl := Option.some.inj (pure_eq_ok.mp h_entry)
      exact h_safe
  rw [overrideEntry] at h
  split at h
  · exact ⟨_, h_below _ _ h⟩
  · split at h
    · exact ⟨_, h_below _ _ h⟩
    · cases h

end Targets

end Kubek.Modpacks
