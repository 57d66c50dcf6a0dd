/-
  Kubek.Lib.LinkTree

  File trees with symbolic links, and how an operating system finds its way in them.

  A tree is a `Folder` whose files are regular ones or links. A path text is given by its
  segments between slashes, `..`, `.` and empty ones among them. `walkTo` goes along segments up to the first
  link, `follow` replaces links by what they point to, at most `limit` times, and everything
  that takes a path is defined by it: `realpath`, `isLink` (of `lstat`), making folders
  (`mkdirAll`) and writing a file (`openWrite`), which also creates the target of a dangling
  link.
-/

import Kubek.Lib.FileTree
import Kubek.Lib.JsText

namespace FileTree

universe u

/-- What is at the end of a path that is no folder. -/
inductive Leaf (α : Type u)
  | regular (content : α)
  | link (target : String)
  deriving DecidableEq

/-- A file tree with links. -/
abbrev LinkTree (α : Type u) := Folder (Leaf α)

inductive Errno
  | ENOENT
  | ENOTDIR
  | ELOOP
  | EEXIST
  | EISDIR
  deriving DecidableEq

/-- Where segments lead before the first link is followed. -/
inductive Walked
  | done (path : Path)
  | missing (dir : Path) (name : String) (rest : List String)
  | notFolder
  | link (dir : Path) (segments : List String)
  deriving DecidableEq

/-- Where a path text leads. -/
inductive Resolved
  | found (path : Path)
  | missing (dir : Path) (name : String) (rest : List String)
  | failed (error : Errno)
  deriving DecidableEq

/-- A text that an entry can have as its name. -/
structure IsName (name : String) : Prop where
  nonempty : name ≠ ""
  notDot : name ≠ "."
  notDots : name ≠ ".."
  noSlash : '/' ∉ name.toList

/-- The text begins at the root. -/
def isAbsolute (text : String) : Bool := text.toList.head? == some '/'

namespace Folder

variable {α : Type u} (t : LinkTree α)

/-- Go along the segments, in real folders, up to the first link. -/
def walkTo (cur : Path) : List String → Walked
  | [] => .done cur
  | segment :: rest =>
      if t.isFolder cur = false then .notFolder
      else if segment = "" ∨ segment = "." then walkTo cur rest
      else if segment = ".." then walkTo cur.dropLast rest
      else
        match t.fileAt (cur ++ [segment]) with
        | some (.link target) =>
            .link (if isAbsolute target then [] else cur) (JsText.split '/' target ++ rest)
        | some (.regular _) => walkTo (cur ++ [segment]) rest
        | none =>
            if t.isFolder (cur ++ [segment]) then walkTo (cur ++ [segment]) rest
            else .missing cur segment rest

/-- What a walk comes to, with a way to go on from a link. -/
def afterWalk (goOn : Path → List String → Resolved) : Walked → Resolved
  | .done path => .found path
  | .missing dir name rest => .missing dir name rest
  | .notFolder => .failed .ENOTDIR
  | .link dir segments => goOn dir segments

/-- Follow links, so many at most. -/
def follow : Nat → Path → List String → Resolved
  | 0, cur, segments => afterWalk (fun _ _ => .failed .ELOOP) (t.walkTo cur segments)
  | limit + 1, cur, segments =>
      afterWalk (fun dir rest => follow limit dir rest) (t.walkTo cur segments)

/-- The real path of a text. -/
def realpath (limit : Nat) (segments : List String) : Except Errno Path :=
  match t.follow limit [] segments with
  | .found path => .ok path
  | .missing _ _ _ => .error .ENOENT
  | .failed error => .error error

/-- `lstat` finds a symbolic link. -/
def isLink (limit : Nat) (segments : List String) : Bool :=
  match segments.getLast? with
  | none => false
  | some name =>
      match t.follow limit [] segments.dropLast with
      | .found dir =>
          match t.fileAt (dir ++ [name]) with
          | some (.link _) => true
          | _ => false
      | _ => false

/-- Put an entry into the folder at a path. -/
def putAt (name : String) (node : Node (Leaf α)) : Path → LinkTree α → LinkTree α
  | [], f => f.put name node
  | n :: dir, f => f.put n (.folder (putAt name node dir (f.entriesAt n)))

/-- Make the folder at the path where it is missing; the folders above it are there. -/
def mkdirOne (limit : Nat) (segments : List String) : LinkTree α × Bool :=
  match t.follow limit [] segments with
  | .found path => (t, t.isFolder path)
  | .failed _ => (t, false)
  | .missing dir name rest =>
      -- A dangling link is there already.
      if t.isLink limit segments || rest ≠ [] then (t, false)
      else (t.putAt name (.folder .empty) dir, true)

/-- Make the folders of a path one after another, those of `made` being there. -/
def mkdirAll (limit : Nat) : List String → List String → LinkTree α → LinkTree α × Bool
  | _, [], t => (t, true)
  | made, segment :: rest, t =>
      let one := t.mkdirOne limit (made ++ [segment])
      if one.2 then mkdirAll limit (made ++ [segment]) rest one.1 else (one.1, false)

/-- Open a file for writing, created where it is missing, and write it. -/
def openWrite (limit : Nat) (segments : List String) (content : α) : LinkTree α × Bool :=
  match t.follow limit [] segments with
  | .found path =>
      match path.getLast? with
      | none => (t, false)
      | some name =>
          if t.isFolder path then (t, false)
          else (t.putAt name (.file (.regular content)) path.dropLast, true)
  | .missing dir name [] => (t.putAt name (.file (.regular content)) dir, true)
  | _ => (t, false)

/-- Make the missing folders above a file and write it. -/
def createAndWrite (limit : Nat) (segments : List String) (content : α) : LinkTree α × Bool :=
  let made := t.mkdirAll limit [] segments.dropLast
  if made.2 then made.1.openWrite limit segments content else (made.1, false)

/-! ## Putting an entry -/

section PutAt

variable {t} {dir q r : Path} {name : String} {node : Node (Leaf α)}

theorem exists_of_isFolder_cons {n : String} {p : Path} (h : t.isFolder (n :: p) = true) :
    ∃ g, t.get n = some (.folder g) ∧ g.isFolder p = true := by
  cases h_get : t.get n with
  | none =>
    rw [isFolder_cons_none h_get] at h
    cases h
  | some node =>
    cases node with
    | file a =>
      rw [isFolder_cons_file h_get] at h
      cases h
    | folder g => exact ⟨g, rfl, by rwa [isFolder_cons_folder h_get] at h⟩

attribute [local simp] putAt in
theorem putAt_cons {n : String} {g : LinkTree α} (h : t.get n = some (.folder g)) :
    putAt name node (n :: dir) t = t.put n (.folder (putAt name node dir g)) := by
  simp only [putAt, entriesAt, h]

/-- Away from the entry nothing changes. -/
theorem fileAt_putAt_frame (h : t.isFolder dir = true) (h_q : ¬ dir ++ [name] <+: q) :
    (putAt name node dir t).fileAt q = t.fileAt q := by
  induction dir generalizing t q with
  | nil =>
    cases q with
    | nil => rfl
    | cons k q =>
      have h_k : k ≠ name := fun h_eq => h_q (by simp [h_eq])
      exact fileAt_congr (get_put_ne h_k)
  | cons n dir ih =>
    obtain ⟨g, h_get, h_g⟩ := exists_of_isFolder_cons h
    rw [putAt_cons h_get]
    cases q with
    | nil => rfl
    | cons k q =>
      by_cases h_k : k = n
      · subst h_k
        rw [fileAt_cons_folder get_put_self, fileAt_cons_folder h_get]
        exact ih h_g fun h_pre => h_q (List.cons_prefix_cons.mpr ⟨rfl, h_pre⟩)
      · exact fileAt_congr (get_put_ne h_k)

theorem isFolder_putAt_frame (h : t.isFolder dir = true) (h_q : ¬ dir ++ [name] <+: q) :
    (putAt name node dir t).isFolder q = t.isFolder q := by
  induction dir generalizing t q with
  | nil =>
    cases q with
    | nil => rfl
    | cons k q =>
      have h_k : k ≠ name := fun h_eq => h_q (by simp [h_eq])
      exact isFolder_congr (get_put_ne h_k)
  | cons n dir ih =>
    obtain ⟨g, h_get, h_g⟩ := exists_of_isFolder_cons h
    rw [putAt_cons h_get]
    cases q with
    | nil => rfl
    | cons k q =>
      by_cases h_k : k = n
      · subst h_k
        rw [isFolder_cons_folder get_put_self, isFolder_cons_folder h_get]
        exact ih h_g fun h_pre => h_q (List.cons_prefix_cons.mpr ⟨rfl, h_pre⟩)
      · exact isFolder_congr (get_put_ne h_k)

theorem fileAt_putAt_file {a : Leaf α} (h : t.isFolder dir = true) :
    (putAt name (.file a) dir t).fileAt (dir ++ [name]) = some a := by
  induction dir generalizing t with
  | nil => rw [putAt, List.nil_append, fileAt_cons_file get_put_self, if_pos rfl]
  | cons n dir ih =>
    obtain ⟨g, h_get, h_g⟩ := exists_of_isFolder_cons h
    rw [putAt_cons h_get, List.cons_append, fileAt_cons_folder get_put_self]
    exact ih h_g

/-- A new folder is there and has nothing in it. -/
theorem isFolder_putAt_folder (h : t.isFolder dir = true) :
    (putAt name (.folder .empty) dir t).isFolder (dir ++ name :: r) = (r == []) := by
  induction dir generalizing t with
  | nil =>
    rw [putAt, List.nil_append, isFolder_cons_folder get_put_self]
    cases r <;> rfl
  | cons n dir ih =>
    obtain ⟨g, h_get, h_g⟩ := exists_of_isFolder_cons h
    rw [putAt_cons h_get, List.cons_append, isFolder_cons_folder get_put_self]
    exact ih h_g

theorem fileAt_putAt_folder (h : t.isFolder dir = true) :
    (putAt name (.folder .empty) dir t).fileAt (dir ++ name :: r) = none := by
  induction dir generalizing t with
  | nil => rw [putAt, List.nil_append, fileAt_cons_folder get_put_self, fileAt_empty]
  | cons n dir ih =>
    obtain ⟨g, h_get, h_g⟩ := exists_of_isFolder_cons h
    rw [putAt_cons h_get, List.cons_append, fileAt_cons_folder get_put_self]
    exact ih h_g

/-- There is nothing of the name in the folder. -/
def Free (t : LinkTree α) (dir : Path) (name : String) : Prop :=
  t.fileAt (dir ++ [name]) = none ∧ t.isFolder (dir ++ [name]) = false

/-- Whatever is in the one tree is in the other. -/
structure Extends (t t' : LinkTree α) : Prop where
  files : ∀ p a, t.fileAt p = some a → t'.fileAt p = some a
  folders : ∀ p, t.isFolder p = true → t'.isFolder p = true

theorem Free.below (h : Free t dir name) {p : Path} (h_p : dir ++ [name] <+: p) :
    t.lookup p = none := by
  obtain ⟨r, rfl⟩ := h_p
  by_contra h_some
  have h_isSome : (t.lookup (dir ++ [name] ++ r)).isSome = true :=
    Option.isSome_iff_ne_none.mpr h_some
  by_cases h_r : r = []
  · rw [h_r, List.append_nil] at h_isSome
    obtain ⟨node, h_node⟩ := Option.isSome_iff_exists.mp h_isSome
    cases node with
    | file a => simpa [fileAt, h_node] using h.1
    | folder g => simpa [isFolder, h_node] using h.2
  · have h_folder := isFolder_of_append h_isSome h_r
    rw [h.2] at h_folder
    cases h_folder

/-- Putting an entry where nothing is adds to the tree. -/
theorem extends_putAt (node : Node (Leaf α)) (h : t.isFolder dir = true) (h_free : Free t dir name) :
    Extends t (putAt name node dir t) := by
  constructor
  · intro p a h_p
    by_cases h_pre : dir ++ [name] <+: p
    · rw [fileAt, h_free.below h_pre] at h_p
      cases h_p
    · rwa [fileAt_putAt_frame h h_pre]
  · intro p h_p
    by_cases h_pre : dir ++ [name] <+: p
    · rw [isFolder, h_free.below h_pre] at h_p
      cases h_p
    · rwa [isFolder_putAt_frame h h_pre]

end PutAt

/-! ## Finding the way -/

section Follow

variable {t} {t' : LinkTree α} {cur p dir : Path} {segments xs : List String} {name : String}
  {rest : List String} {limit : Nat}

/-- The way through a tree is the way through a larger one. -/
theorem walkTo_extends (h : Extends t t') {w : Walked} (h_walk : t.walkTo cur segments = w)
    (h_w : (∃ p, w = .done p) ∨ ∃ d s, w = .link d s) : t'.walkTo cur segments = w := by
  induction segments generalizing cur with
  | nil => exact h_walk
  | cons segment segments ih =>
    simp only [walkTo] at h_walk ⊢
    split at h_walk
    · obtain ⟨p, rfl⟩ | ⟨d, s, rfl⟩ := h_w <;> cases h_walk
    · rename_i h_cur
      have h_cur' : ¬ t'.isFolder cur = false := by
        simpa using h.folders cur (by simpa using h_cur)
      rw [if_neg h_cur']
      split at h_walk
      · rename_i h_here
        rw [if_pos h_here]
        exact ih h_walk
      · rename_i h_here
        rw [if_neg h_here]
        split at h_walk
        · rename_i h_up
          rw [if_pos h_up]
          exact ih h_walk
        · rename_i h_up
          rw [if_neg h_up]
          split at h_walk
          · rename_i target h_leaf
            rw [h.files _ _ h_leaf]
            exact h_walk
          · rename_i content h_leaf
            rw [h.files _ _ h_leaf]
            exact ih h_walk
          · rename_i h_leaf
            split at h_walk
            · rename_i h_folder
              have h_folder' := h.folders _ h_folder
              have h_leaf' : t'.fileAt (cur ++ [segment]) = none := by
                by_contra h_some
                obtain ⟨a, h_a⟩ := Option.ne_none_iff_exists'.mp h_some
                rw [not_isFolder_of_fileAt h_a] at h_folder'
                cases h_folder'
              rw [h_leaf']
              simp only [h_folder', if_true]
              exact ih h_walk
            · obtain ⟨p, rfl⟩ | ⟨d, s, rfl⟩ := h_w <;> cases h_walk

attribute [local simp] follow in
theorem follow_done (h : t.walkTo cur segments = .done p) :
    t.follow limit cur segments = .found p := by
  cases limit <;> rw [follow, h, afterWalk]

theorem follow_missing (h : t.walkTo cur segments = .missing dir name rest) :
    t.follow limit cur segments = .missing dir name rest := by
  cases limit <;> rw [follow, h, afterWalk]

theorem follow_notFolder (h : t.walkTo cur segments = .notFolder) :
    t.follow limit cur segments = .failed .ENOTDIR := by
  cases limit <;> rw [follow, h, afterWalk]

theorem follow_link (h : t.walkTo cur segments = .link dir xs) :
    t.follow (limit + 1) cur segments = t.follow limit dir xs := by
  rw [follow, h, afterWalk]

theorem follow_link_zero (h : t.walkTo cur segments = .link dir xs) :
    t.follow 0 cur segments = .failed .ELOOP := by
  rw [follow, h, afterWalk]

/-- What following comes to, by what the walk up to the first link comes to. -/
theorem follow_cases (t : LinkTree α) (limit : Nat) (cur : Path) (segments : List String) :
    (∃ p, t.walkTo cur segments = .done p ∧ t.follow limit cur segments = .found p) ∨
    (∃ dir name rest, t.walkTo cur segments = .missing dir name rest ∧
      t.follow limit cur segments = .missing dir name rest) ∨
    (t.walkTo cur segments = .notFolder ∧ t.follow limit cur segments = .failed .ENOTDIR) ∨
    (∃ dir segs, t.walkTo cur segments = .link dir segs ∧ limit = 0 ∧
      t.follow limit cur segments = .failed .ELOOP) ∨
    ∃ dir segs left, t.walkTo cur segments = .link dir segs ∧ limit = left + 1 ∧
      t.follow limit cur segments = t.follow left dir segs := by
  cases h_walk : t.walkTo cur segments with
  | done p => exact .inl ⟨p, rfl, follow_done h_walk⟩
  | missing dir name rest => exact .inr (.inl ⟨dir, name, rest, rfl, follow_missing h_walk⟩)
  | notFolder => exact .inr (.inr (.inl ⟨rfl, follow_notFolder h_walk⟩))
  | link dir segs =>
    cases limit with
    | zero => exact .inr (.inr (.inr (.inl ⟨dir, segs, rfl, rfl, follow_link_zero h_walk⟩)))
    | succ left => exact .inr (.inr (.inr (.inr ⟨dir, segs, left, rfl, rfl, follow_link h_walk⟩)))

/-- What is found in a tree is found in a larger one. -/
theorem follow_extends (h : Extends t t') (limit : Nat) (cur : Path) (segments : List String)
    (h_follow : t.follow limit cur segments = .found p) :
    t'.follow limit cur segments = .found p := by
  obtain ⟨p', h_walk, h_eq⟩ | ⟨_, _, _, -, h_eq⟩ | ⟨-, h_eq⟩ | ⟨_, _, -, -, h_eq⟩ |
    ⟨d, segs, left, h_walk, rfl, h_eq⟩ := follow_cases t limit cur segments
  · rw [h_eq] at h_follow
    rw [follow_done (walkTo_extends h h_walk (.inl ⟨_, rfl⟩)), h_follow]
  · rw [h_eq] at h_follow
    cases h_follow
  · rw [h_eq] at h_follow
    cases h_follow
  · rw [h_eq] at h_follow
    cases h_follow
  · rw [h_eq] at h_follow
    rw [follow_link (walkTo_extends h h_walk (.inr ⟨_, _, rfl⟩))]
    exact follow_extends h left d segs h_follow

/-- Segments behind others are walked from where those lead. -/
theorem walkTo_append (cur : Path) (xs ys : List String) :
    t.walkTo cur (xs ++ ys) =
      match t.walkTo cur xs with
      | .done p => t.walkTo p ys
      | .missing dir name rest => .missing dir name (rest ++ ys)
      | .notFolder => .notFolder
      | .link dir segments => .link dir (segments ++ ys) := by
  induction xs generalizing cur with
  | nil => rfl
  | cons x xs ih =>
    simp only [List.cons_append, walkTo]
    split
    · rfl
    · split
      · exact ih cur
      · split
        · exact ih cur.dropLast
        · split
          · simp
          · exact ih _
          · split
            · exact ih _
            · rfl

/-- What a text leads to with more segments behind it, by what it leads to without. -/
theorem follow_append (t : LinkTree α) (limit : Nat) (cur : Path) (xs : List String) :
    match t.follow limit cur xs with
    | .found p => ∃ left, ∀ ys, t.follow limit cur (xs ++ ys) = t.follow left p ys
    | .missing dir name rest => ∀ ys, t.follow limit cur (xs ++ ys) = .missing dir name (rest ++ ys)
    | .failed e => ∀ ys, t.follow limit cur (xs ++ ys) = .failed e := by
  obtain ⟨p, h_walk, h_eq⟩ | ⟨d, n, r, h_walk, h_eq⟩ | ⟨h_walk, h_eq⟩ |
    ⟨d, segs, h_walk, rfl, h_eq⟩ | ⟨d, segs, left, h_walk, rfl, h_eq⟩ :=
    follow_cases t limit cur xs
  · rw [h_eq]
    refine ⟨limit, fun ys => ?_⟩
    have h_append : t.walkTo cur (xs ++ ys) = t.walkTo p ys := by rw [walkTo_append, h_walk]
    cases limit <;> rw [follow, follow, h_append]
  · rw [h_eq]
    exact fun ys => follow_missing (by rw [walkTo_append, h_walk])
  · rw [h_eq]
    exact fun ys => follow_notFolder (by rw [walkTo_append, h_walk])
  · rw [h_eq]
    exact fun ys => follow_link_zero (by rw [walkTo_append, h_walk])
  · rw [h_eq]
    have h_step : ∀ ys, t.follow (left + 1) cur (xs ++ ys) = t.follow left d (segs ++ ys) :=
      fun ys => follow_link (by rw [walkTo_append, h_walk])
    simp only [h_step]
    exact follow_append t left d segs

theorem follow_append_found (h : t.follow limit cur xs = .found p) :
    ∃ left, ∀ ys, t.follow limit cur (xs ++ ys) = t.follow left p ys := by
  have h_append := follow_append t limit cur xs
  rwa [h] at h_append

theorem follow_append_missing (h : t.follow limit cur xs = .missing dir name rest)
    (ys : List String) : t.follow limit cur (xs ++ ys) = .missing dir name (rest ++ ys) := by
  have h_append := follow_append t limit cur xs
  rw [h] at h_append
  exact h_append ys

theorem follow_append_failed {e : Errno} (h : t.follow limit cur xs = .failed e)
    (ys : List String) : t.follow limit cur (xs ++ ys) = .failed e := by
  have h_append := follow_append t limit cur xs
  rw [h] at h_append
  exact h_append ys

/-- One name from a folder on, where it is no link. -/
theorem follow_name (h_name : IsName name) (h_dir : t.isFolder dir = true)
    (h_link : ∀ target, t.fileAt (dir ++ [name]) ≠ some (.link target)) :
    t.follow limit dir [name] =
      if t.fileAt (dir ++ [name]) = none ∧ t.isFolder (dir ++ [name]) = false then
        .missing dir name []
      else .found (dir ++ [name]) := by
  have h_walk : t.walkTo dir [name] =
      if t.fileAt (dir ++ [name]) = none ∧ t.isFolder (dir ++ [name]) = false then
        .missing dir name []
      else .done (dir ++ [name]) := by
    simp only [walkTo, h_dir, h_name.nonempty, h_name.notDot, h_name.notDots, or_self, if_false]
    cases h_leaf : t.fileAt (dir ++ [name]) with
    | none =>
      cases h_folder : t.isFolder (dir ++ [name]) with
      | true => simp
      | false => simp
    | some leaf =>
      cases leaf with
      | regular content => simp
      | link target => exact absurd h_leaf (h_link target)
  split
  · rename_i h_free
    rw [if_pos h_free] at h_walk
    exact follow_missing h_walk
  · rename_i h_free
    rw [if_neg h_free] at h_walk
    exact follow_done h_walk

theorem follow_from_file (h_dir : t.isFolder dir = false) :
    t.follow limit dir (name :: rest) = .failed .ENOTDIR :=
  follow_notFolder (by rw [walkTo, if_pos h_dir])

/-- The path is that of an entry, by names alone. -/
structure Real (t : LinkTree α) (p : Path) : Prop where
  there : (t.lookup p).isSome = true
  names : ∀ n ∈ p, IsName n

/-- A walk ends at, or goes on from, what is there. -/
def RealWalk (t : LinkTree α) : Walked → Prop
  | .done p => Real t p
  | .link dir segs => Real t dir ∧ ∀ s ∈ segs, '/' ∉ s.toList
  | _ => True

theorem real_nil : Real t [] := ⟨rfl, fun n h_n => by cases h_n⟩

theorem Real.up (h : Real t p) : Real t p.dropLast := by
  refine ⟨?_, fun n h_n => h.names n (List.dropLast_subset p h_n)⟩
  cases h_last : p.getLast? with
  | none =>
    rw [List.getLast?_eq_none_iff.mp h_last]
    rfl
  | some name =>
    obtain ⟨dir, rfl⟩ := List.getLast?_eq_some_iff.mp h_last
    rw [List.dropLast_concat]
    exact lookup_isSome_of_isFolder (isFolder_of_append h.there (List.cons_ne_nil _ _))

theorem Real.down (h : Real t cur) (h_name : IsName name)
    (h_there : (t.lookup (cur ++ [name])).isSome = true) : Real t (cur ++ [name]) := by
  refine ⟨h_there, fun n h_n => ?_⟩
  obtain h_n | h_n := List.mem_append.mp h_n
  · exact h.names n h_n
  · rwa [List.mem_singleton.mp h_n]

theorem real_walkTo (h_cur : Real t cur) (h_segs : ∀ s ∈ segments, '/' ∉ s.toList) :
    RealWalk t (t.walkTo cur segments) := by
  induction segments generalizing cur with
  | nil => exact h_cur
  | cons segment segments ih =>
    have h_rest : ∀ s ∈ segments, '/' ∉ s.toList := fun s h_s => h_segs s (List.mem_cons_of_mem _ h_s)
    rw [walkTo]
    split
    · trivial
    · split
      · exact ih h_cur h_rest
      · rename_i h_here
        split
        · exact ih h_cur.up h_rest
        · rename_i h_up
          have h_name : IsName segment :=
            ⟨fun h => h_here (.inl h), fun h => h_here (.inr h), h_up,
              h_segs segment List.mem_cons_self⟩
          split
          · refine ⟨?_, fun s h_s => ?_⟩
            · split
              · exact real_nil
              · exact h_cur
            · obtain h_s | h_s := List.mem_append.mp h_s
              · exact JsText.not_mem_of_mem_split h_s
              · exact h_rest s h_s
          · rename_i h_leaf
            exact ih (h_cur.down h_name (lookup_isSome_of_fileAt h_leaf)) h_rest
          · split
            · rename_i h_folder
              exact ih (h_cur.down h_name (lookup_isSome_of_isFolder h_folder)) h_rest
            · trivial

/-- What is found is there, and its path has no way up in it. -/
theorem real_follow (limit : Nat) (cur : Path) (segments : List String) (h_cur : Real t cur)
    (h_segs : ∀ s ∈ segments, '/' ∉ s.toList) (h : t.follow limit cur segments = .found p) :
    Real t p := by
  have h_real := real_walkTo h_cur h_segs
  obtain ⟨p', h_walk, h_eq⟩ | ⟨_, _, _, -, h_eq⟩ | ⟨-, h_eq⟩ | ⟨_, _, -, -, h_eq⟩ |
    ⟨d, segs, left, h_walk, rfl, h_eq⟩ := follow_cases t limit cur segments
  · rw [h_eq] at h
    cases h
    rwa [h_walk] at h_real
  · rw [h_eq] at h
    cases h
  · rw [h_eq] at h
    cases h
  · rw [h_eq] at h
    cases h
  · rw [h_eq] at h
    rw [h_walk] at h_real
    exact real_follow left d segs h_real.1 h_real.2 h

end Follow

/-! ## Making folders and writing -/

section Writing

variable {t} {limit : Nat} {made xs ys segments : List String} {dir p q : Path} {name : String}
  {content : α}

theorem realpath_ok : t.realpath limit segments = .ok p ↔ t.follow limit [] segments = .found p := by
  rw [realpath]
  cases t.follow limit [] segments with
  | found path => simp
  | missing dir name rest => simp
  | failed error => simp

/-- `ENOENT` at a name behind a path that is found: the name is a dangling link, or there is
    nothing of it. -/
theorem free_of_enoent (h : t.follow limit [] made = .found dir) (h_name : IsName name)
    (h_missing : t.realpath limit (made ++ [name]) = .error .ENOENT)
    (h_link : t.isLink limit (made ++ [name]) = false) :
    t.isFolder dir = true ∧ Free t dir name := by
  obtain ⟨left, h_append⟩ := follow_append_found h
  rw [realpath, h_append] at h_missing
  rw [isLink, List.getLast?_concat, List.dropLast_concat] at h_link
  simp only [h] at h_link
  cases h_dir : t.isFolder dir with
  | false =>
    rw [follow_from_file h_dir] at h_missing
    cases h_missing
  | true =>
    refine ⟨rfl, ?_⟩
    have h_no : ∀ target, t.fileAt (dir ++ [name]) ≠ some (.link target) := by
      intro target h_leaf
      rw [h_leaf] at h_link
      cases h_link
    rw [follow_name h_name h_dir h_no] at h_missing
    by_cases h_free : t.fileAt (dir ++ [name]) = none ∧ t.isFolder (dir ++ [name]) = false
    · exact h_free
    · rw [if_neg h_free] at h_missing
      cases h_missing

/-- A name of which there is nothing is missing, and no link. -/
theorem follow_free (h : t.follow limit [] made = .found dir) (h_name : IsName name)
    (h_dir : t.isFolder dir = true) (h_free : Free t dir name) :
    t.follow limit [] (made ++ [name]) = .missing dir name [] ∧
      t.isLink limit (made ++ [name]) = false := by
  obtain ⟨left, h_append⟩ := follow_append_found h
  constructor
  · rw [h_append, follow_name h_name h_dir (by simp [h_free.1])]
    exact if_pos h_free
  · rw [isLink, List.getLast?_concat, List.dropLast_concat]
    simp only [h, h_free.1]

theorem mkdirOne_free (h : t.follow limit [] made = .found dir) (h_name : IsName name)
    (h_dir : t.isFolder dir = true) (h_free : Free t dir name) :
    t.mkdirOne limit (made ++ [name]) = (t.putAt name (.folder .empty) dir, true) := by
  obtain ⟨h_missing, h_link⟩ := follow_free h h_name h_dir h_free
  rw [mkdirOne, h_missing, h_link]
  simp

theorem mkdirAll_free (h : t.follow limit [] made = .found dir) (h_name : IsName name)
    (h_dir : t.isFolder dir = true) (h_free : Free t dir name) :
    mkdirAll limit made (name :: xs) t =
      mkdirAll limit (made ++ [name]) xs (t.putAt name (.folder .empty) dir) := by
  rw [mkdirAll, mkdirOne_free h h_name h_dir h_free]
  exact if_pos rfl

theorem openWrite_free (h : t.follow limit [] made = .found dir) (h_name : IsName name)
    (h_dir : t.isFolder dir = true) (h_free : Free t dir name) :
    t.openWrite limit (made ++ [name]) content =
      (t.putAt name (.file (.regular content)) dir, true) := by
  rw [openWrite, (follow_free h h_name h_dir h_free).1]

theorem openWrite_found (h : t.follow limit [] segments = .found (dir ++ [name])) :
    t.openWrite limit segments content =
      if t.isFolder (dir ++ [name]) then (t, false)
      else (t.putAt name (.file (.regular content)) dir, true) := by
  rw [openWrite, h]
  simp only [List.getLast?_concat, List.dropLast_concat]

theorem openWrite_root (h : t.follow limit [] segments = .found []) :
    t.openWrite limit segments content = (t, false) := by
  rw [openWrite, h]
  rfl

theorem mkdirOne_found (h : t.follow limit [] segments = .found p) :
    t.mkdirOne limit segments = (t, t.isFolder p) := by
  rw [mkdirOne, h]

/-- What comes before a text that is found is found. -/
theorem found_of_append (h : t.follow limit [] (xs ++ ys) = .found p) :
    ∃ p', t.follow limit [] xs = .found p' := by
  cases h_xs : t.follow limit [] xs with
  | found p' => exact ⟨p', rfl⟩
  | missing dir name rest =>
    rw [follow_append_missing h_xs] at h
    cases h
  | failed e =>
    rw [follow_append_failed h_xs] at h
    cases h

/-- No folder is made of a path that is found. -/
theorem mkdirAll_found (made ys : List String) (h : t.follow limit [] (made ++ xs) = .found p) :
    mkdirAll limit made (xs ++ ys) t = (t, false) ∨
      mkdirAll limit made (xs ++ ys) t = mkdirAll limit (made ++ xs) ys t := by
  induction xs generalizing made with
  | nil => exact .inr (by simp)
  | cons x xs ih =>
    rw [List.append_cons] at h
    obtain ⟨p', h_found⟩ := found_of_append h
    rw [List.cons_append, mkdirAll, mkdirOne_found h_found]
    cases h_folder : t.isFolder p' with
    | false => exact .inl rfl
    | true => simpa using ih _ h

/-- A folder with nothing in it. -/
structure Bare (t : LinkTree α) (dir : Path) : Prop where
  isFolder : t.isFolder dir = true
  free : ∀ name, Free t dir name

/-- The trees are alike but below the path. -/
def AlikeOutside (p : Path) (t t' : LinkTree α) : Prop :=
  ∀ q, ¬ p <+: q → t'.fileAt q = t.fileAt q ∧ t'.isFolder q = t.isFolder q

theorem AlikeOutside.refl (p : Path) (t : LinkTree α) : AlikeOutside p t t :=
  fun _ _ => ⟨rfl, rfl⟩

theorem AlikeOutside.trans {t₁ t₂ t₃ : LinkTree α} (h : AlikeOutside p t₁ t₂)
    (h' : AlikeOutside q t₂ t₃) (h_pre : p <+: q) : AlikeOutside p t₁ t₃ := by
  intro r h_r
  have h_r' : ¬ q <+: r := fun h_q => h_r (h_pre.trans h_q)
  exact ⟨(h' r h_r').1.trans (h r h_r).1, (h' r h_r').2.trans (h r h_r).2⟩

theorem AlikeOutside.mono {t' : LinkTree α} (h : AlikeOutside q t t') (h_pre : p <+: q) :
    AlikeOutside p t t' := fun r h_r => h r fun h_q => h_r (h_pre.trans h_q)

theorem alikeOutside_putAt (name : String) (node : Node (Leaf α)) (h : t.isFolder dir = true) :
    AlikeOutside (dir ++ [name]) t (putAt name node dir t) :=
  fun _ h_q => ⟨fileAt_putAt_frame h h_q, isFolder_putAt_frame h h_q⟩

/-- After a folder is made it is found, with nothing in it. -/
theorem bare_putAt (h : t.follow limit [] made = .found dir) (h_name : IsName name)
    (h_dir : t.isFolder dir = true) (h_free : Free t dir name) :
    (t.putAt name (.folder .empty) dir).follow limit [] (made ++ [name]) = .found (dir ++ [name]) ∧
      Bare (t.putAt name (.folder .empty) dir) (dir ++ [name]) := by
  have h_new : (t.putAt name (.folder .empty) dir).isFolder (dir ++ [name]) = true :=
    isFolder_putAt_folder h_dir
  have h_none : (t.putAt name (.folder .empty) dir).fileAt (dir ++ [name]) = none :=
    fileAt_putAt_folder h_dir
  constructor
  · have h_ext := extends_putAt (.folder .empty) h_dir h_free
    obtain ⟨left, h_append⟩ := follow_append_found (follow_extends h_ext _ _ _ h)
    rw [h_append, follow_name h_name (h_ext.folders _ h_dir) (by simp [h_none])]
    simp [h_new]
  · refine ⟨h_new, fun m => ⟨?_, ?_⟩⟩
    · rw [List.append_assoc]
      exact fileAt_putAt_folder h_dir
    · rw [List.append_assoc]
      exact isFolder_putAt_folder h_dir

/-- Folders made below one with nothing in it. -/
theorem mkdirAll_bare (h : t.follow limit [] made = .found dir) (h_bare : Bare t dir)
    (h_names : ∀ n ∈ xs, IsName n) :
    let m := mkdirAll limit made xs t
    m.2 = true ∧ m.1.follow limit [] (made ++ xs) = .found (dir ++ xs) ∧ Bare m.1 (dir ++ xs) ∧
      AlikeOutside dir t m.1 := by
  induction xs generalizing made dir t with
  | nil => simpa [mkdirAll] using ⟨h, h_bare, AlikeOutside.refl dir t⟩
  | cons x xs ih =>
    have h_x := h_names x List.mem_cons_self
    obtain ⟨h_found, h_new⟩ := bare_putAt h h_x h_bare.isFolder (h_bare.free x)
    have h_rest := ih h_found h_new fun n h_n => h_names n (List.mem_cons_of_mem _ h_n)
    rw [mkdirAll_free h h_x h_bare.isFolder (h_bare.free x), List.append_cons made x xs,
      List.append_cons dir x xs]
    have h_alike := (alikeOutside_putAt x (.folder .empty) h_bare.isFolder).trans
      h_rest.2.2.2 (List.prefix_refl _)
    exact ⟨h_rest.1, h_rest.2.1, h_rest.2.2.1, h_alike.mono (List.prefix_append _ _)⟩

/-- A file written where nothing is of the first missing name. -/
theorem createAndWrite_free (content : α) (h : t.follow limit [] made = .found dir)
    (h_dir : t.isFolder dir = true) (h_free : Free t dir name)
    (h_names : ∀ n ∈ name :: xs, IsName n) :
    let after := t.createAndWrite limit (made ++ name :: xs) content
    AlikeOutside (dir ++ [name]) t after.1 ∧
      (after.2 = true → after.1.fileAt (dir ++ name :: xs) = some (.regular content)) := by
  have h_name := h_names name List.mem_cons_self
  cases h_last : xs.getLast? with
  | none =>
    have h_xs := List.getLast?_eq_none_iff.mp h_last
    subst h_xs
    rw [createAndWrite, List.dropLast_concat]
    obtain h_made | h_made := mkdirAll_found [] [] h
    · rw [List.append_nil] at h_made
      rw [h_made]
      exact ⟨AlikeOutside.refl _ t, fun h_ok => by cases h_ok⟩
    · rw [List.append_nil] at h_made
      rw [h_made]
      simp only [mkdirAll, if_true, openWrite_free h h_name h_dir h_free]
      exact ⟨alikeOutside_putAt _ _ h_dir, fun _ => fileAt_putAt_file h_dir⟩
  | some last =>
    obtain ⟨mid, rfl⟩ := List.getLast?_eq_some_iff.mp h_last
    have h_split : made ++ name :: (mid ++ [last]) = made ++ name :: mid ++ [last] := by simp
    rw [createAndWrite, h_split, List.dropLast_concat]
    obtain h_made | h_made := mkdirAll_found [] (name :: mid) h
    · rw [h_made]
      exact ⟨AlikeOutside.refl _ t, fun h_ok => by cases h_ok⟩
    · obtain ⟨h_found, h_bare⟩ := bare_putAt h h_name h_dir h_free
      obtain ⟨h_ok, h_mid, h_end, h_alike⟩ := mkdirAll_bare h_found h_bare
        fun n (h_n : n ∈ mid) => h_names n (by simp [h_n])
      rw [h_made, List.nil_append, mkdirAll_free h h_name h_dir h_free]
      rw [List.append_assoc made, List.singleton_append] at h_mid
      simp only [h_ok, if_true]
      rw [openWrite_free h_mid (h_names last (by simp)) h_end.isFolder (h_end.free last)]
      have h_first := (alikeOutside_putAt name (.folder .empty) h_dir).trans
        h_alike (List.prefix_refl _)
      refine ⟨h_first.trans (alikeOutside_putAt _ _ h_end.isFolder) ?_, fun _ => ?_⟩
      · exact ⟨mid ++ [last], by simp⟩
      · have h_file : (putAt last (.file (.regular content)) (dir ++ [name] ++ mid)
            (mkdirAll limit (made ++ [name]) mid (t.putAt name (.folder .empty) dir)).1).fileAt
              (dir ++ [name] ++ mid ++ [last]) = some (.regular content) :=
          fileAt_putAt_file h_end.isFolder
        simpa using h_file

/-- A file written over one that is found. -/
theorem createAndWrite_found (content : α) (h : t.follow limit [] segments = .found p)
    (h_segs : ∀ s ∈ segments, '/' ∉ s.toList) :
    let after := t.createAndWrite limit segments content
    AlikeOutside p t after.1 ∧ (after.2 = true → after.1.fileAt p = some (.regular content)) := by
  have h_real := real_follow limit [] segments real_nil h_segs h
  have h_made : (mkdirAll limit [] segments.dropLast t).1 = t := by
    cases h_last : segments.getLast? with
    | none =>
      rw [List.getLast?_eq_none_iff.mp h_last]
      rfl
    | some last =>
      obtain ⟨init, rfl⟩ := List.getLast?_eq_some_iff.mp h_last
      obtain ⟨p', h_init⟩ := found_of_append h
      rw [List.dropLast_concat]
      obtain h_all | h_all := mkdirAll_found [] [] h_init
      · rw [List.append_nil] at h_all
        rw [h_all]
      · rw [List.append_nil] at h_all
        rw [h_all, mkdirAll]
  rw [createAndWrite]
  simp only [h_made]
  split
  · cases h_last : p.getLast? with
    | none =>
      have h_p := List.getLast?_eq_none_iff.mp h_last
      subst h_p
      rw [openWrite_root h]
      exact ⟨AlikeOutside.refl [] t, fun h_ok => by cases h_ok⟩
    | some name =>
      obtain ⟨dir, rfl⟩ := List.getLast?_eq_some_iff.mp h_last
      have h_dir : t.isFolder dir = true := isFolder_of_append h_real.there (List.cons_ne_nil _ _)
      rw [openWrite_found h]
      split
      · exact ⟨AlikeOutside.refl _ t, fun h_ok => by cases h_ok⟩
      · exact ⟨alikeOutside_putAt _ _ h_dir, fun _ => fileAt_putAt_file h_dir⟩
  · exact ⟨AlikeOutside.refl p t, fun h_ok => by cases h_ok⟩

end Writing

end Folder

end FileTree
