/-
  Kubek.Core.Paths

  Path texts (`core/utils/paths.ts`, `core/utils/serverPath.ts`, and the parts of Node's
  `path` they call) on a POSIX system: an absolute path is the list of its names.

  `getSafeServerPath` is the check by path text that every file request passes first.
-/

import Kubek.Lib.FileTree
import Kubek.Lib.JsText
import Kubek.Lib.TextSearch

namespace Kubek.Paths

open FileTree (Path)

/-- One step of `normalize`. Above the root there is nothing. -/
def resolveOne (here : Path) (segment : String) : Path :=
  if segment = "" ∨ segment = "." then here
  else if segment = ".." then here.dropLast
  else here ++ [segment]

def resolveFrom (start : Path) (segments : List String) : Path :=
  segments.foldl resolveOne start

def isAbsolute (text : String) : Bool := text.toList.head? == some '/'

/-- `path.resolve(text)` with the process in `cwd`. -/
def resolve (cwd : Path) (text : String) : Path :=
  resolveFrom (if isAbsolute text then [] else cwd) (JsText.split '/' text)

/-- `resolve(join(base, normalize(text)))`: an absolute text is normalised on its own first,
    and its leading `..` go nowhere. -/
def resolveUnder (base : Path) (text : String) : Path :=
  if isAbsolute text then base ++ resolveFrom [] (JsText.split '/' text)
  else resolveFrom base (JsText.split '/' text)

theorem dots_not_mem_resolveFrom {start : Path} (h : ".." ∉ start) (segments : List String) :
    ".." ∉ resolveFrom start segments := by
  induction segments generalizing start with
  | nil => exact h
  | cons segment segments ih =>
    apply ih
    simp only [resolveOne]
    split
    · exact h
    · split
      · exact fun h_mem => h (List.dropLast_subset start h_mem)
      · rename_i h_dots
        simpa [h] using Ne.symm h_dots

/-- One segment of `normalize`; a relative path may climb above its start. -/
def normalizeOne (absolute : Bool) (done : List String) (segment : String) : List String :=
  if segment = "" ∨ segment = "." then done
  else if segment = ".." then
    if done ≠ [] ∧ done.getLast? ≠ some ".." then done.dropLast
    else if absolute then done
    else done ++ [segment]
  else done ++ [segment]

/-- `path.posix.normalize`. -/
def normalize (text : String) : String :=
  let absolute := isAbsolute text
  let trailing := text.toList.getLast? == some '/'
  let segments := (JsText.split '/' text).foldl (normalizeOne absolute) []
  let body := String.intercalate "/" segments
  if body = "" then if absolute then "/" else if trailing then "./" else "."
  else (if absolute then "/" else "") ++ body ++ (if trailing then "/" else "")

/-- `.replace(/\/+$/, "")`. -/
def stripSlashes (text : String) : String :=
  String.ofList (text.toList.reverse.dropWhile (· == '/')).reverse

/-- `path.relative` between absolute paths, as the list of its segments. -/
def relative : Path → Path → List String
  | b :: base, t :: target =>
      if b = t then relative base target
      else List.replicate (base.length + 1) ".." ++ t :: target
  | base, target => List.replicate base.length ".." ++ target

/-- `target` is `base` or inside it, by path text only. -/
def isInside (base target : Path) : Bool :=
  match relative base target with
  | [] => true
  | segment :: _ => segment != ".."

theorem prefix_of_isInside {base target : Path} (h : isInside base target = true) :
    base <+: target := by
  induction base generalizing target with
  | nil => exact List.nil_prefix
  | cons b base ih =>
    cases target with
    | nil => simp [isInside, relative, List.replicate_succ] at h
    | cons t target =>
      by_cases h_eq : b = t
      · subst h_eq
        rw [List.cons_prefix_cons]
        exact ⟨rfl, ih (by simpa [isInside, relative] using h)⟩
      · simp [isInside, relative, h_eq, List.replicate_succ] at h

theorem isInside_of_prefix {base target : Path} (h : ".." ∉ target) (h_pre : base <+: target) :
    isInside base target = true := by
  induction base generalizing target with
  | nil =>
    cases target with
    | nil => rfl
    | cons t target =>
      have h_ne : t ≠ ".." := fun h_eq => h (h_eq ▸ List.mem_cons_self)
      simp [isInside, relative, h_ne]
  | cons b base ih =>
    obtain ⟨rest, rfl⟩ := h_pre
    have h_rest : ".." ∉ base ++ rest := fun h_mem => h (List.mem_cons_of_mem _ h_mem)
    simpa [isInside, relative] using ih h_rest (List.prefix_append base rest)

/-- Inside by path text is below, as no name is `..`. -/
theorem isInside_iff {base target : Path} (h : ".." ∉ target) :
    isInside base target = true ↔ base <+: target :=
  ⟨prefix_of_isInside, isInside_of_prefix h⟩

/-- `/[\\/]|\.\./`. -/
def hasSlashOrDots (text : String) : Bool :=
  text.toList.any (fun c => c == '/' || c == '\\') ||
    TextSearch.includes "..".toList text.toList

/-- `getServerPath`, resolved. -/
def serverBase (cwd : Path) (serverId : String) : Path :=
  resolve cwd ("./servers/" ++ serverId)

/-- `getSafeServerPath`; `none` where it throws. -/
def getSafeServerPath (cwd : Path) (serverId requestedPath : String) : Option Path :=
  if serverId = "" || hasSlashOrDots serverId then none
  else
    let base := serverBase cwd serverId
    let full := resolveUnder base requestedPath
    if isInside base full then some full else none

/-- What is accepted is at or below the server folder. -/
theorem getSafeServerPath_pre {cwd full : Path} {serverId requestedPath : String}
    (h : getSafeServerPath cwd serverId requestedPath = some full) :
    serverBase cwd serverId <+: full := by
  simp only [getSafeServerPath] at h
  split at h
  · cases h
  · split at h
    · rename_i h_inside
      cases h
      exact prefix_of_isInside h_inside
    · cases h

end Kubek.Paths
