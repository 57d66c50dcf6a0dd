/-
  Kubek.Files.FtpFs

  The file system of an FTP session (modules/ftp/ftp-fs.ts): its first level are the servers,
  and every call asks anew who the account is and which servers there are.

  Each call checks the path text, the access, and where the path really leads, and then
  hands the path to the system. The tree stays as it is between the check and the call.
  What the check finds is what is behind the last link of a path; `unlink` and `rename` act
  on the link itself, which may be outside the server's folder as long as it leads into it
  (`LeadsInto`). Left out: sizes and times, and reads through an open file.
-/

import Kubek.Access.Areas
import Kubek.Core.RealPath
import Kubek.Lib.Fallible
import Kubek.Lib.LinkEdits
import Kubek.Lib.Machine

namespace Kubek.Ftp

open Access (AccessLevel AccessSubject can canOnServer levelAtLeast)
open Fallible
open FileTree (Path LinkTree IsName)
open FileTree.Folder (DiffersAt)
open Paths (FsError fsError errnoCode textOf isInsideText assertRealInside getSafeServerPath)
open Transition (Machine)

/-- What `FtpFsOptions` answers at one call. -/
structure Rights where
  user : Option AccessSubject
  serverIds : List String

/-- The machine the panel runs on. -/
structure Host where
  cwd : Path
  cwd_names : ∀ n ∈ cwd, IsName n
  /-- How many links the system follows at most. -/
  limit : Nat

/-- What a call ends with: an error of its own, or that of `getSafeServerPath`. -/
inductive Thrown
  | fs (error : FsError)
  | badRequest
  deriving DecidableEq

abbrev Checked (β : Type) := Except Thrown β

def fails {β : Type} (code message : String) : Checked β := .error (.fs (fsError code message))

/-! ## Paths -/

/-- A path inside the virtual tree; without a server it is the root listing. -/
structure Target where
  serverId : Option String
  rel : String

/-- The parts between slashes and backslashes, without empty ones and dots. -/
def partsOf (virtualPath : String) : List String :=
  (JsText.split '/' (String.ofList (virtualPath.toList.map fun c => if c = '\\' then '/' else c))).filter
    fun part => !(part == "" || part == ".")

def parse (virtualPath : String) : Checked Target :=
  let parts := partsOf virtualPath
  if parts.contains ".." then fails "EACCES" "path traversal"
  else
    match parts with
    | [] => .ok { serverId := none, rel := "" }
    | serverId :: rest => .ok { serverId := some serverId, rel := String.intercalate "/" rest }

/-- `FtpFs.user`. -/
def Rights.needs (r : Rights) (level : AccessLevel) : Checked AccessSubject :=
  match r.user with
  | none => fails "EACCES" ("files " ++ level.text ++ " access required")
  | some user =>
      if can user .files level then .ok user
      else fails "EACCES" ("files " ++ level.text ++ " access required")

def allowedServerIds (r : Rights) : Checked (List String) := do
  let user ← r.needs .read
  return r.serverIds.filter fun id => canOnServer user .files .read id

section Calls

variable {α : Type} (host : Host) (t : LinkTree α) (r : Rights)

/-- `serverBase`: the real folder of a server. -/
def serverBase (serverId : String) (level : AccessLevel) : Checked Path := do
  let user ← r.needs level
  if !r.serverIds.contains serverId || !canOnServer user .files level serverId then
    fails "ENOENT" "no such server"
  else
    match getSafeServerPath host.cwd serverId "" with
    | none => .error .badRequest
    | some base =>
        match t.realpath host.limit base with
        | .error _ => fails "ENOENT" "server directory missing"
        | .ok real => .ok real

/-- `FtpFs.resolve`: with `mustExist` false the closest existing parent is checked. -/
def resolve (virtualPath : String) (mustExist : Bool) (level : AccessLevel) : Checked Path := do
  let target ← parse virtualPath
  match target.serverId with
  | none => fails "EACCES" "virtual root"
  | some serverId =>
      let base ← serverBase host t r serverId level
      match getSafeServerPath host.cwd serverId target.rel with
      | none => .error .badRequest
      | some full =>
          match assertRealInside t host.limit (textOf base) mustExist (full.length + 1) full with
          | some (.ok _) => .ok full
          | some (.error e) => .error (.fs e)
          -- The fuel does not run out: `assertRealInside_ends`.
          | none => .error .badRequest

/-- Server folders cannot be removed or renamed. -/
def resolveEntry (virtualPath : String) (mustExist : Bool) (level : AccessLevel) : Checked Path := do
  let target ← parse virtualPath
  if target.serverId.isNone || target.rel == "" then fails "EPERM" "server root is fixed"
  else resolve host t r virtualPath mustExist level

/-! ## The calls of a session -/

inductive Command (α : Type)
  | stat (path : String)
  | readdir (path : String)
  | open_ (path flags : String)
  /-- `content` is what the file has in it when the stream is closed. -/
  | createWriteStream (path : String) (content : α)
  | unlink (path : String)
  | mkdir (path : String)
  | rmdir (path : String)
  | rename (source target : String)

/-- The level each call asks for. -/
def Command.level : Command α → AccessLevel
  | stat _ => .read
  | readdir _ => .read
  | open_ _ _ => .read
  | createWriteStream _ _ => .write
  | unlink _ => .manage
  | mkdir _ => .write
  | rmdir _ => .manage
  | rename _ _ => .write

inductive Reply
  | failed (error : Thrown)
  | errno (code : String)
  /-- The stats of the virtual root. -/
  | root
  /-- The stats of what is at a real path. -/
  | stats (real : Path)
  | servers (ids : List String)
  /-- The names shown of the folder at a real path. -/
  | entries (real : Path) (names : List String)
  | opened (real : Path)
  | did (ok : Bool)

/-- A call of the system, once its path is accepted. -/
def withPath (checked : Checked Path) (call : Path → LinkTree α × Reply) : LinkTree α × Reply :=
  match checked with
  | .error e => (t, .failed e)
  | .ok full => call full

/-- The outcome of a call that changes the disk. -/
def done (after : LinkTree α × Bool) : LinkTree α × Reply := (after.1, .did after.2)

/-- What the system finds at an accepted path. -/
def found (full : Path) (answer : Path → Reply) : LinkTree α × Reply :=
  match t.realpath host.limit full with
  | .error code => (t, .errno (errnoCode code))
  | .ok real => (t, answer real)

def stat (path : String) : LinkTree α × Reply :=
  match parse path with
  | .error e => (t, .failed e)
  | .ok ⟨none, _⟩ =>
      match r.needs .read with
      | .error e => (t, .failed e)
      | .ok _ => (t, .root)
  | .ok ⟨some _, _⟩ => withPath t (resolve host t r path true .read) fun full => found host t full .stats

def isOk {β : Type} (checked : Checked β) : Bool :=
  match checked with
  | .ok _ => true
  | .error _ => false

/-- The names of a folder, links that point outside left out. -/
def shownNames (base full real : Path) : List String :=
  match t.lookup real with
  | some (.folder folder) =>
      folder.names.filter fun name =>
        match t.realpath host.limit (full ++ [name]) with
        | .error _ => false
        | .ok at_ => isInsideText (textOf base) (textOf at_)
  | _ => []

def readdir (path : String) : LinkTree α × Reply :=
  match parse path with
  | .error e => (t, .failed e)
  | .ok ⟨none, _⟩ =>
      match allowedServerIds r with
      | .error e => (t, .failed e)
      | .ok ids => (t, .servers (ids.filter fun id => isOk (serverBase host t r id .read)))
  | .ok ⟨some serverId, _⟩ =>
      withPath t (resolve host t r path true .read) fun full =>
        match serverBase host t r serverId .read with
        | .error e => (t, .failed e)
        | .ok base =>
            found host t full fun real =>
              if t.isFolder real then .entries real (shownNames host t base full real)
              else .errno "ENOTDIR"

def openFile (path flags : String) : LinkTree α × Reply :=
  if flags ≠ "r" then (t, .failed (.fs (fsError "EACCES" "only reads are opened by fd")))
  else withPath t (resolve host t r path true .read) fun full => found host t full .opened

def createWriteStream (path : String) (content : α) : LinkTree α × Reply :=
  withPath t (resolveEntry host t r path false .write) fun full =>
    done (t.openWrite host.limit full content)

def unlink (path : String) : LinkTree α × Reply :=
  withPath t (resolveEntry host t r path true .manage) fun full =>
    done (t.unlink host.limit full)

def mkdir (path : String) : LinkTree α × Reply :=
  withPath t (resolveEntry host t r path false .write) fun full =>
    done (t.mkdir host.limit full)

def rmdir (path : String) : LinkTree α × Reply :=
  withPath t (resolveEntry host t r path true .manage) fun full =>
    done (t.rmdir host.limit full)

def rename (source target : String) : LinkTree α × Reply :=
  withPath t (resolveEntry host t r source true .write) fun src =>
    withPath t (resolveEntry host t r target false .write) fun dst =>
      done (t.rename host.limit src dst)

def perform : Command α → LinkTree α × Reply
  | .stat path => stat host t r path
  | .readdir path => readdir host t r path
  | .open_ path flags => openFile host t r path flags
  | .createWriteStream path content => createWriteStream host t r path content
  | .unlink path => unlink host t r path
  | .mkdir path => mkdir host t r path
  | .rmdir path => rmdir host t r path
  | .rename source target => rename host t r source target

end Calls

/-! ## Sessions -/

section Session

variable {α : Type}

/-- A call with the rights of its moment, or what others do on the disk. -/
inductive Event (α : Type)
  | ftp (rights : Rights) (command : Command α)
  | other (tree : LinkTree α)

def sessions (host : Host) (start : LinkTree α) : Machine (LinkTree α) (Event α) where
  init := (· = start)
  step t e :=
    match e with
    | .ftp rights command => some (perform host t rights command).1
    | .other tree => some tree

/-- At the path is a link that leads to or below the folder. -/
def LeadsInto (t : LinkTree α) (base q : Path) : Prop :=
  (∃ target, t.fileAt q = some (.link target)) ∧ ∃ n p, t.follow n [] q = .found p ∧ base <+: p

/-- The folder of a server that the account may use with the level. -/
def Granted (host : Host) (t : LinkTree α) (r : Rights) (level : AccessLevel) (base : Path) : Prop :=
  ∃ user serverId full, r.user = some user ∧ serverId ∈ r.serverIds ∧
    canOnServer user .files level serverId = true ∧
    getSafeServerPath host.cwd serverId "" = some full ∧ t.realpath host.limit full = .ok base

/-- The path is in such a folder, or is a link into it. -/
def Within (host : Host) (t : LinkTree α) (r : Rights) (level : AccessLevel) (q : Path) : Prop :=
  ∃ base, Granted host t r level base ∧ (base <+: q ∨ LeadsInto t base q)

/-- A step that has nothing to do with the path: a read, a call of an account that may not
    use it with the level of the call, something of others that leaves it alone. -/
def Spares (host : Host) (q : Path) (t : LinkTree α) : Event α → Prop
  | .ftp rights command => command.level = .read ∨ ¬ Within host t rights command.level q
  | .other tree => ¬ DiffersAt t tree q

/-- What a reply tells of the disk is in a folder the account may read. -/
inductive ShowsGranted (host : Host) (t : LinkTree α) (r : Rights) : Reply → Prop
  | failed (error : Thrown) : ShowsGranted host t r (.failed error)
  | errno (code : String) : ShowsGranted host t r (.errno code)
  | root : ShowsGranted host t r .root
  | did (ok : Bool) : ShowsGranted host t r (.did ok)
  | stats {base real : Path} (h : Granted host t r .read base) (h_in : base <+: real) :
      ShowsGranted host t r (.stats real)
  | opened {base real : Path} (h : Granted host t r .read base) (h_in : base <+: real) :
      ShowsGranted host t r (.opened real)
  | entries {base real : Path} {names : List String} (h : Granted host t r .read base)
      (h_in : base <+: real)
      (h_names : ∀ name ∈ names, IsName name →
        ∃ n p, t.follow n real [name] = .found p ∧ base <+: p) :
      ShowsGranted host t r (.entries real names)
  | servers {ids : List String}
      (h : ∀ id ∈ ids, id ∈ r.serverIds ∧
        ∃ user, r.user = some user ∧ canOnServer user .files .read id = true) :
      ShowsGranted host t r (.servers ids)

end Session

/-! ## What an accepted path is -/

section Accepted

variable {α : Type} {host : Host} {t : LinkTree α} {r : Rights} {path : String} {mustExist : Bool}
  {level : AccessLevel} {full base q dir : Path} {name serverId : String} {limit fuel : Nat}

open FileTree.Folder

theorem assertRealInside_ends (t : LinkTree α) (limit : Nat) (base : String) (mustExist : Bool)
    (probe : Path) : ∃ answer, ∀ fuel, probe.length < fuel →
      assertRealInside t limit base mustExist fuel probe = some answer := by
  induction probe using List.reverseRecOn with
  | nil =>
    have h_root : t.realpath limit [] = .ok [] := realpath_ok.mpr (follow_done rfl)
    refine ⟨if isInsideText base (textOf []) then .ok () else
      .error (fsError "EACCES" "path leaves the server directory"), fun fuel h_fuel => ?_⟩
    obtain ⟨fuel, rfl⟩ := Nat.exists_eq_succ_of_ne_zero (Nat.ne_of_gt h_fuel)
    rw [Nat.succ_eq_add_one, assertRealInside, h_root]
    dsimp only
    split <;> rfl
  | append_singleton init name ih =>
    obtain ⟨answer, h_answer⟩ := ih
    cases h_real : t.realpath limit (init ++ [name]) with
    | ok real =>
      refine ⟨if isInsideText base (textOf real) then .ok () else
        .error (fsError "EACCES" "path leaves the server directory"), fun fuel h_fuel => ?_⟩
      obtain ⟨fuel, rfl⟩ := Nat.exists_eq_succ_of_ne_zero (Nat.ne_of_gt (Nat.zero_lt_of_lt h_fuel))
      rw [Nat.succ_eq_add_one, assertRealInside, h_real]
      dsimp only
      split <;> rfl
    | error code =>
      refine ⟨if code ≠ .ENOENT ∨ mustExist then
          .error (fsError (errnoCode code) "no such file or directory")
        else if t.isLink limit (init ++ [name]) then .error (fsError "EACCES" "dangling symlink")
        else answer, fun fuel h_fuel => ?_⟩
      obtain ⟨fuel, rfl⟩ := Nat.exists_eq_succ_of_ne_zero (Nat.ne_of_gt (Nat.zero_lt_of_lt h_fuel))
      have h_init : init.length < fuel := by
        rw [List.length_append, List.length_singleton] at h_fuel
        omega
      have h_parent : init ≠ init ++ [name] := fun h => by simpa using congrArg List.length h
      rw [Nat.succ_eq_add_one, assertRealInside, h_real]
      simp only [List.dropLast_concat, h_parent, if_false, h_answer fuel h_init]
      split
      · rfl
      · split <;> rfl

theorem isName_safePath (h_cwd : ∀ n ∈ host.cwd, IsName n) {requested : String}
    (h : getSafeServerPath host.cwd serverId requested = some full) : ∀ n ∈ full, IsName n := by
  have h_base : ∀ n ∈ Paths.serverBase host.cwd serverId, IsName n := Paths.isName_resolve h_cwd _
  have h_split : ∀ s ∈ JsText.split '/' requested, '/' ∉ s.toList :=
    fun s h_s => JsText.not_mem_of_mem_split h_s
  simp only [getSafeServerPath] at h
  split at h
  · cases h
  · split at h
    · cases h
      rw [Paths.resolveUnder]
      split
      · intro n h_n
        obtain h_n | h_n := List.mem_append.mp h_n
        · exact h_base n h_n
        · exact Paths.isName_resolveFrom (fun n h_n => by cases h_n) h_split n h_n
      · exact Paths.isName_resolveFrom h_base h_split
    · cases h

/-- A real folder is found by the names of its path. -/
theorem walkTo_real (h : t.isFolder dir = true) (h_names : ∀ n ∈ dir, IsName n) :
    t.walkTo [] dir = .done dir := by
  induction dir using List.reverseRecOn with
  | nil => rfl
  | append_singleton init name ih =>
    have h_init := isFolder_of_pre h (List.prefix_append init [name])
    have h_name := h_names name (by simp)
    have h_none : t.fileAt (init ++ [name]) = none := by
      by_contra h_some
      obtain ⟨a, h_a⟩ := Option.ne_none_iff_exists'.mp h_some
      rw [not_isFolder_of_fileAt h_a] at h
      cases h
    rw [walkTo_append, ih h_init fun n h_n => h_names n (List.mem_append_left _ h_n)]
    simp only [walkTo, h_init, h_none, h, h_name.nonempty, h_name.notDot, h_name.notDots, or_self,
      if_false, if_true, Bool.true_eq_false]

/-- From the root along the names, or from the folder: the way is the same. -/
theorem follow_real (h : t.isFolder dir = true) (h_names : ∀ n ∈ dir, IsName n) (n : Nat)
    (rest : List String) : t.follow n [] (dir ++ rest) = t.follow n dir rest := by
  have h_walk : t.walkTo [] (dir ++ rest) = t.walkTo dir rest := by
    rw [walkTo_append, walkTo_real h h_names]
  cases n <;> rw [follow, follow, h_walk]

/-- Where the check accepts, it has climbed to something inside the base. -/
theorem probe_of_accepted (h_base : ∀ n ∈ base, IsName n) (h_names : ∀ n ∈ full, IsName n)
    (h : assertRealInside t limit (textOf base) mustExist fuel full = some (.ok ())) :
    base = [] ∨ Paths.probeUp t limit base (!mustExist) fuel full = some true := by
  by_cases h_root : base = []
  · exact .inl h_root
  · exact .inr ((Paths.assertRealInside_ok_iff h_root h_base mustExist fuel h_names).mp h)

/-- The entry of an accepted path is inside the base, or is a link into it. -/
theorem entry_inside (h_names : ∀ n ∈ full, IsName n)
    (h : base = [] ∨ Paths.probeUp t limit base (!mustExist) fuel full = some true)
    (h_entry : t.entryAt limit full = some (dir, name)) :
    base <+: dir ++ [name] ∨ LeadsInto t base (dir ++ [name]) := by
  obtain rfl | h := h
  · exact .inl List.nil_prefix
  obtain ⟨made, rest, real, rfl, h_made, h_inside, h_rest⟩ := Paths.probeUp_true h_names h
  have h_pre := Paths.prefix_of_isInside h_inside
  rw [entryAt] at h_entry
  split at h_entry
  · cases h_entry
  · rename_i last h_last
    obtain ⟨init, h_full⟩ := List.getLast?_eq_some_iff.mp h_last
    rw [h_full, List.dropLast_concat] at h_entry
    split at h_entry
    · rename_i dir' h_dir
      obtain ⟨h_folder, h_eq⟩ := Option.ite_none_right_eq_some.mp h_entry
      cases h_eq
      have h_name : IsName name := h_names name (by rw [h_full]; simp)
      have h_segs : ∀ s ∈ init, '/' ∉ s.toList := fun s h_s =>
        (h_names s (by rw [h_full]; exact List.mem_append_left _ h_s)).noSlash
      have h_dir_names := (real_follow limit [] init real_nil h_segs h_dir).names
      cases rest with
      | nil =>
        rw [List.append_nil] at h_full
        obtain ⟨left, h_left⟩ := follow_append_found h_dir
        have h_found : t.follow left dir [name] = .found real := by rw [← h_left, ← h_full, h_made]
        by_cases h_link : ∃ target, t.fileAt (dir ++ [name]) = some (.link target)
        · exact .inr ⟨h_link, left, real, (follow_real h_folder h_dir_names left _).trans h_found, h_pre⟩
        · rw [follow_name h_name h_folder fun target h_t => h_link ⟨target, h_t⟩] at h_found
          split at h_found
          · cases h_found
          · cases h_found
            exact .inl h_pre
      | cons first rest =>
        obtain ⟨h_real, h_free⟩ := h_rest first rest rfl
        have h_first : IsName first := h_names first (by simp)
        obtain h_nil | ⟨before, last', h_before⟩ := List.eq_nil_or_concat' rest
        · rw [h_nil] at h_full
          obtain ⟨rfl, h_last'⟩ := List.append_inj' h_full rfl
          cases h_last'
          rw [h_made] at h_dir
          cases h_dir
          exact .inl (h_pre.trans (List.prefix_append _ _))
        · rw [h_before, ← List.cons_append, ← List.append_assoc] at h_full
          obtain ⟨rfl, -⟩ := List.append_inj' h_full rfl
          have h_missing := (follow_free h_made h_first h_real h_free).1
          rw [List.append_cons, follow_append_missing h_missing] at h_dir
          cases h_dir
    · cases h_entry

/-- A file written by an accepted path is inside the base. -/
theorem write_inside (content : α) (h_names : ∀ n ∈ full, IsName n)
    (h : base = [] ∨ Paths.probeUp t limit base (!mustExist) fuel full = some true)
    (h_q : DiffersAt t (t.openWrite limit full content).1 q) : base <+: q := by
  obtain rfl | h := h
  · exact List.nil_prefix
  obtain ⟨made, rest, real, rfl, h_made, h_inside, h_rest⟩ := Paths.probeUp_true h_names h
  have h_pre := Paths.prefix_of_isInside h_inside
  have h_below : ∀ {e : Path} {t' : LinkTree α}, base <+: e → AlikeOutside e t t' →
      DiffersAt t t' q → base <+: q := by
    intro e t' h_e h_alike h_differs
    by_contra h_not
    obtain ⟨h_file, h_folder⟩ := h_alike q fun h => h_not (h_e.trans h)
    exact h_differs.elim (fun h => h h_file) fun h => h h_folder
  cases rest with
  | nil =>
    rw [List.append_nil] at h_q
    obtain rfl | ⟨dir, name, rfl⟩ := List.eq_nil_or_concat' real
    · rw [openWrite_root h_made] at h_q
      exact absurd h_q (not_differsAt_self t q)
    · rw [openWrite_found h_made] at h_q
      split at h_q
      · exact absurd h_q (not_differsAt_self t q)
      · have h_real := (real_follow limit [] made real_nil
          (fun s h_s => (h_names s (List.mem_append_left _ h_s)).noSlash) h_made).there
        have h_dir := isFolder_of_append h_real (List.cons_ne_nil _ _)
        exact h_below h_pre (alikeOutside_putAt name _ h_dir) h_q
  | cons first rest =>
    obtain ⟨h_real, h_free⟩ := h_rest first rest rfl
    have h_first : IsName first := h_names first (by simp)
    cases rest with
    | nil =>
      rw [openWrite_free h_made h_first h_real h_free] at h_q
      exact h_below (h_pre.trans (List.prefix_append _ _)) (alikeOutside_putAt first _ h_real) h_q
    | cons second rest =>
      have h_missing := (follow_free h_made h_first h_real h_free).1
      rw [List.append_cons, openWrite, follow_append_missing h_missing] at h_q
      exact absurd h_q (not_differsAt_self t q)

end Accepted

/-! ## What each call does -/

section Steps

variable {α : Type} {host : Host} {t : LinkTree α} {r : Rights} {path : String} {mustExist : Bool}
  {level : AccessLevel} {full base q : Path} {serverId : String}

theorem needs_ok {user : AccessSubject} (h : r.needs level = .ok user) : r.user = some user := by
  rw [Rights.needs] at h
  split at h
  · cases h
  · rename_i h_user
    split at h
    · rw [h_user, Except.ok.inj h]
    · cases h

theorem serverBase_ok (h : serverBase host t r serverId level = .ok base) :
    Granted host t r level base := by
  rw [serverBase, bind_eq_ok] at h
  obtain ⟨user, h_user, h⟩ := h
  split at h
  · cases h
  · rename_i h_known
    split at h
    · cases h
    · rename_i full h_full
      split at h
      · cases h
      · rename_i real h_real
        simp only [Bool.or_eq_true, Bool.not_eq_true', not_or, Bool.not_eq_false] at h_known
        rw [← Except.ok.inj h]
        exact ⟨user, serverId, full, needs_ok h_user, List.contains_iff_mem.mp h_known.1,
          h_known.2, h_full, h_real⟩

/-- An accepted path: its folder is granted, and the check has climbed into it. -/
theorem resolve_ok (h : resolve host t r path mustExist level = .ok full) :
    ∃ target serverId base, parse path = .ok target ∧ target.serverId = some serverId ∧
      serverBase host t r serverId level = .ok base ∧ (∀ n ∈ full, IsName n) ∧
      (∀ n ∈ base, IsName n) ∧ (base = [] ∨
        Paths.probeUp t host.limit base (!mustExist) (full.length + 1) full = some true) := by
  rw [resolve, bind_eq_ok] at h
  obtain ⟨target, h_target, h⟩ := h
  split at h
  · cases h
  · rename_i serverId h_id
    rw [bind_eq_ok] at h
    obtain ⟨base, h_base, h⟩ := h
    split at h
    · cases h
    · rename_i path h_path
      split at h
      · rename_i h_inside
        cases h
        obtain ⟨user, id, root, -, -, -, h_root, h_real⟩ := serverBase_ok h_base
        have h_names := isName_safePath host.cwd_names h_path
        have h_root_names := isName_safePath host.cwd_names h_root
        have h_base_names := Paths.isName_realpath (fun s h_s => (h_root_names s h_s).noSlash) h_real
        exact ⟨target, serverId, base, h_target, h_id, h_base, h_names, h_base_names,
          probe_of_accepted h_base_names h_names h_inside⟩
      · cases h
      · cases h

theorem resolveEntry_ok (h : resolveEntry host t r path mustExist level = .ok full) :
    resolve host t r path mustExist level = .ok full := by
  rw [resolveEntry, bind_eq_ok] at h
  obtain ⟨target, -, h⟩ := h
  split at h
  · cases h
  · exact h

/-- What is really at a path that has to exist is inside the folder. -/
theorem real_inside {real : Path}
    (h : base = [] ∨ Paths.probeUp t host.limit base (!true) (full.length + 1) full = some true)
    (h_real : t.realpath host.limit full = .ok real) : base <+: real := by
  obtain rfl | h_probe := h
  · exact List.nil_prefix
  · rw [Paths.probeUp, h_real] at h_probe
    exact Paths.prefix_of_isInside (Option.some.inj h_probe)

/-- The entry that a call changes is inside a granted folder, or is a link into it. -/
theorem entry_within {dir : Path} {name : String}
    (h : resolveEntry host t r path mustExist level = .ok full)
    (h_entry : t.entryAt host.limit full = some (dir, name)) :
    Within host t r level (dir ++ [name]) := by
  obtain ⟨target, serverId, base, -, -, h_base, h_names, -, h_probe⟩ := resolve_ok (resolveEntry_ok h)
  exact ⟨base, serverBase_ok h_base, entry_inside h_names h_probe h_entry⟩

theorem withPath_cases (t : LinkTree α) (checked : Checked Path) (call : Path → LinkTree α × Reply) :
    (∃ e, withPath t checked call = (t, .failed e)) ∨
      ∃ full, checked = .ok full ∧ withPath t checked call = call full := by
  cases checked with
  | error e => exact .inl ⟨e, rfl⟩
  | ok full => exact .inr ⟨full, rfl, rfl⟩

theorem found_cases (host : Host) (t : LinkTree α) (full : Path) (answer : Path → Reply) :
    (∃ code, found host t full answer = (t, .errno code)) ∨
      ∃ real, t.realpath host.limit full = .ok real ∧
        found host t full answer = (t, answer real) := by
  rw [found]
  cases t.realpath host.limit full with
  | error code => exact .inl ⟨_, rfl⟩
  | ok real => exact .inr ⟨real, rfl, rfl⟩

/-- Reads change nothing. -/
theorem perform_read (command : Command α) (h : command.level = .read) :
    (perform host t r command).1 = t := by
  have h_found : ∀ full answer, (found host t full answer).1 = t := by
    intro full answer
    obtain ⟨code, h_eq⟩ | ⟨real, -, h_eq⟩ := found_cases host t full answer
    · rw [h_eq]
    · rw [h_eq]
  have h_with : ∀ (checked : Checked Path) (call : Path → LinkTree α × Reply),
      (∀ full, (call full).1 = t) → (withPath t checked call).1 = t := by
    intro checked call h_call
    obtain ⟨e, h_eq⟩ | ⟨full, -, h_eq⟩ := withPath_cases t checked call
    · rw [h_eq]
    · rw [h_eq, h_call]
  cases command with
  | stat path =>
    rw [perform, stat]
    split
    · rfl
    · split <;> rfl
    · exact h_with _ _ fun full => h_found full _
  | readdir path =>
    rw [perform, readdir]
    split
    · rfl
    · split <;> rfl
    · apply h_with
      intro full
      split
      · rfl
      · exact h_found full _
  | open_ path flags =>
    rw [perform, openFile]
    split
    · rfl
    · exact h_with _ _ fun full => h_found full _
  | createWriteStream path content => cases h
  | unlink path => cases h
  | mkdir path => cases h
  | rmdir path => cases h
  | rename source target => cases h

/-- One call changes nothing but what is within a folder granted with its level. -/
theorem within_of_differs (command : Command α)
    (h : DiffersAt t (perform host t r command).1 q) : Within host t r command.level q := by
  have h_same : ∀ {t' : LinkTree α}, t' = t → ¬ DiffersAt t t' q :=
    fun h_eq h => FileTree.Folder.not_differsAt_self t q (h_eq ▸ h)
  cases command with
  | stat path => exact absurd h (h_same (perform_read _ rfl))
  | readdir path => exact absurd h (h_same (perform_read _ rfl))
  | open_ path flags => exact absurd h (h_same (perform_read _ rfl))
  | createWriteStream path content =>
    rw [perform, createWriteStream] at h
    obtain ⟨e, h_eq⟩ | ⟨full, h_full, h_eq⟩ := withPath_cases t _ _
    · exact absurd h (h_same (by rw [h_eq]))
    · rw [h_eq] at h
      obtain ⟨_, _, base, -, -, h_base, h_names, -, h_probe⟩ := resolve_ok (resolveEntry_ok h_full)
      exact ⟨base, serverBase_ok h_base, .inl (write_inside content h_names h_probe h)⟩
  | unlink path =>
    rw [perform, unlink] at h
    obtain ⟨e, h_eq⟩ | ⟨full, h_full, h_eq⟩ := withPath_cases t _ _
    · exact absurd h (h_same (by rw [h_eq]))
    · rw [h_eq] at h
      obtain h_eq | ⟨dir, name, h_entry, h_only⟩ := FileTree.Folder.unlink_changes t host.limit full
      · exact absurd h (h_same h_eq)
      · rw [h_only q h]
        exact entry_within h_full h_entry
  | mkdir path =>
    rw [perform, mkdir] at h
    obtain ⟨e, h_eq⟩ | ⟨full, h_full, h_eq⟩ := withPath_cases t _ _
    · exact absurd h (h_same (by rw [h_eq]))
    · rw [h_eq] at h
      obtain h_eq | ⟨dir, name, h_entry, -, h_only⟩ := FileTree.Folder.mkdir_changes t host.limit full
      · exact absurd h (h_same h_eq)
      · rw [h_only q h]
        exact entry_within h_full h_entry
  | rmdir path =>
    rw [perform, rmdir] at h
    obtain ⟨e, h_eq⟩ | ⟨full, h_full, h_eq⟩ := withPath_cases t _ _
    · exact absurd h (h_same (by rw [h_eq]))
    · rw [h_eq] at h
      obtain h_eq | ⟨dir, name, h_entry, -, h_only⟩ := FileTree.Folder.rmdir_changes t host.limit full
      · exact absurd h (h_same h_eq)
      · rw [h_only q h]
        exact entry_within h_full h_entry
  | rename source target =>
    rw [perform, rename] at h
    obtain ⟨e, h_eq⟩ | ⟨src, h_src, h_eq⟩ := withPath_cases t _ _
    · exact absurd h (h_same (by rw [h_eq]))
    · rw [h_eq] at h
      obtain ⟨e, h_eq⟩ | ⟨dst, h_dst, h_eq⟩ := withPath_cases t _ _
      · exact absurd h (h_same (by rw [h_eq]))
      · rw [h_eq] at h
        obtain h_eq | ⟨dir, name, dir', name', h_entry, h_entry', h_only⟩ :=
          FileTree.Folder.rename_changes t host.limit src dst
        · exact absurd h (h_same h_eq)
        · have h_from := entry_within h_src h_entry
          have h_to := entry_within h_dst h_entry'
          -- what is no link is inside the folder, with all that is below it
          have h_below : ∀ {e : Path}, Within host t r .write e → t.fileAt e = none → e <+: q →
              Within host t r .write q := by
            rintro e ⟨base, h_granted, h_inside | ⟨⟨link, h_link⟩, -⟩⟩ h_none h_pre
            · exact ⟨base, h_granted, .inl (h_inside.trans h_pre)⟩
            · rw [h_none] at h_link
              cases h_link
          obtain rfl | rfl | ⟨h_none, h_none', h_pre | h_pre⟩ := h_only q h
          · exact h_from
          · exact h_to
          · exact h_below h_from h_none h_pre
          · exact h_below h_to h_none' h_pre

/-- The shown names of a folder lead to something inside. -/
theorem shownNames_inside {real : Path} {name : String} (h_base : ∀ n ∈ base, IsName n)
    (h_full : ∀ n ∈ full, IsName n) (h_real : t.realpath host.limit full = .ok real)
    (h : name ∈ shownNames host t base full real) (h_name : IsName name) :
    ∃ n p, t.follow n real [name] = .found p ∧ base <+: p := by
  rw [shownNames] at h
  split at h
  · obtain ⟨-, h_shown⟩ := List.mem_filter.mp h
    split at h_shown
    · cases h_shown
    · rename_i p h_p
      obtain ⟨left, h_left⟩ :=
        FileTree.Folder.follow_append_found (FileTree.Folder.realpath_ok.mp h_real)
      refine ⟨left, p, by rw [← h_left]; exact FileTree.Folder.realpath_ok.mp h_p, ?_⟩
      by_cases h_root : base = []
      · rw [h_root]
        exact List.nil_prefix
      · have h_segs : ∀ s ∈ full ++ [name], '/' ∉ s.toList := by
          intro s h_s
          obtain h_s | h_s := List.mem_append.mp h_s
          · exact (h_full s h_s).noSlash
          · rw [List.mem_singleton.mp h_s]
            exact h_name.noSlash
        rw [Paths.isInsideText_eq h_root h_base (Paths.isName_realpath h_segs h_p)] at h_shown
        exact Paths.prefix_of_isInside h_shown
  · cases h

theorem shows_done (after : LinkTree α × Bool) : ShowsGranted host t r (done after).2 := .did _

theorem shows_withPath {checked : Checked Path} {call : Path → LinkTree α × Reply}
    (h : ∀ full, checked = .ok full → ShowsGranted host t r (call full).2) :
    ShowsGranted host t r (withPath t checked call).2 := by
  obtain ⟨e, h_eq⟩ | ⟨full, h_full, h_eq⟩ := withPath_cases t checked call
  · rw [h_eq]
    exact .failed e
  · rw [h_eq]
    exact h full h_full

theorem shows_stat (path : String) : ShowsGranted host t r (stat host t r path).2 := by
  rw [stat]
  split
  · exact .failed _
  · split
    · exact .failed _
    · exact .root
  · apply shows_withPath
    intro full h_full
    obtain ⟨_, _, base, -, -, h_base, -, -, h_probe⟩ := resolve_ok h_full
    obtain ⟨code, h_eq⟩ | ⟨real, h_real, h_eq⟩ := found_cases host t full .stats
    · rw [h_eq]
      exact .errno code
    · rw [h_eq]
      exact .stats (serverBase_ok h_base) (real_inside h_probe h_real)

theorem shows_openFile (path flags : String) :
    ShowsGranted host t r (openFile host t r path flags).2 := by
  rw [openFile]
  split
  · exact .failed _
  · apply shows_withPath
    intro full h_full
    obtain ⟨_, _, base, -, -, h_base, -, -, h_probe⟩ := resolve_ok h_full
    obtain ⟨code, h_eq⟩ | ⟨real, h_real, h_eq⟩ := found_cases host t full .opened
    · rw [h_eq]
      exact .errno code
    · rw [h_eq]
      exact .opened (serverBase_ok h_base) (real_inside h_probe h_real)

theorem shows_servers {ids : List String} (h : allowedServerIds r = .ok ids) :
    ShowsGranted host t r (.servers (ids.filter fun id => isOk (serverBase host t r id .read))) := by
  rw [allowedServerIds, bind_eq_ok] at h
  obtain ⟨user, h_user, h⟩ := h
  obtain rfl := pure_eq_ok.mp h
  refine .servers fun id h_id => ?_
  obtain ⟨h_in, h_can⟩ := List.mem_filter.mp (List.mem_filter.mp h_id).1
  exact ⟨h_in, user, needs_ok h_user, h_can⟩

theorem shows_readdir (path : String) : ShowsGranted host t r (readdir host t r path).2 := by
  rw [readdir]
  split
  · exact .failed _
  · split
    · exact .failed _
    · rename_i ids h_ids
      exact shows_servers h_ids
  · rename_i serverId rel h_parse
    apply shows_withPath
    intro full h_full
    obtain ⟨target, id, base, h_target, h_id, h_base, h_names, h_base_names, h_probe⟩ :=
      resolve_ok h_full
    -- the folder is looked up twice, with the same answer
    rw [h_parse, Except.ok.injEq] at h_target
    rw [← h_target, Option.some.injEq] at h_id
    rw [h_id, h_base]
    dsimp only
    obtain ⟨code, h_eq⟩ | ⟨real, h_real, h_eq⟩ := found_cases host t full fun real =>
      if t.isFolder real then .entries real (shownNames host t base full real)
      else .errno "ENOTDIR"
    · rw [h_eq]
      exact .errno code
    · rw [h_eq]
      dsimp only
      split
      · exact .entries (serverBase_ok h_base) (real_inside h_probe h_real)
          fun name h_shown => shownNames_inside h_base_names h_names h_real h_shown
      · exact .errno _

/-- One call tells of nothing but what is in a folder granted for reading. -/
theorem shows_perform (command : Command α) :
    ShowsGranted host t r (perform host t r command).2 := by
  cases command with
  | stat path => exact shows_stat path
  | readdir path => exact shows_readdir path
  | open_ path flags => exact shows_openFile path flags
  | createWriteStream path content =>
    rw [perform, createWriteStream]
    exact shows_withPath fun full _ => shows_done _
  | unlink path =>
    rw [perform, unlink]
    exact shows_withPath fun full _ => shows_done _
  | mkdir path =>
    rw [perform, mkdir]
    exact shows_withPath fun full _ => shows_done _
  | rmdir path =>
    rw [perform, rmdir]
    exact shows_withPath fun full _ => shows_done _
  | rename source target =>
    rw [perform, rename]
    exact shows_withPath fun src _ => shows_withPath fun dst _ => shows_done _

end Steps

/-! ## Whole sessions -/

section Runs

variable {α : Type}

/-- **No session leaves the folders of its servers.** Whatever sequence of calls the sessions
    make while accounts, servers and the disk change, a path that no account may change with
    the call it makes, be it in a granted folder or a link into one, keeps what it has; and
    no reply tells of anything outside the folders granted for reading. -/
theorem sessions_stay_inside (host : Host) (start : LinkTree α) (q : Path) {t : LinkTree α}
    (h : (sessions host start).ReachableUnder (Spares host q) t) :
    (t.fileAt q = start.fileAt q ∧ t.isFolder q = start.isFolder q) ∧
      ∀ r command, ShowsGranted host t r (perform host t r command).2 := by
  refine ⟨?_, fun r command => shows_perform command⟩
  have h_same : ∀ {a b : LinkTree α}, ¬ DiffersAt a b q →
      b.fileAt q = a.fileAt q ∧ b.isFolder q = a.isFolder q := fun h_not =>
    ⟨not_not.mp fun h => h_not (.inl h), not_not.mp fun h => h_not (.inr h)⟩
  refine h.invariant (P := fun s => s.fileAt q = start.fileAt q ∧ s.isFolder q = start.isFolder q)
    (fun s h_init => ?_) fun s e s' h_s h_spares h_step => ?_
  · rw [h_init]
    exact ⟨rfl, rfl⟩
  · have h_next : ¬ DiffersAt s s' q := by
      cases e with
      | ftp rights command =>
        rw [← Option.some.inj h_step]
        intro h_differs
        obtain h_read | h_not := h_spares
        · rw [perform_read command h_read] at h_differs
          exact FileTree.Folder.not_differsAt_self s q h_differs
        · exact h_not (within_of_differs command h_differs)
      | other tree =>
        rw [← Option.some.inj h_step]
        exact h_spares
    obtain ⟨h_file, h_folder⟩ := h_same h_next
    exact ⟨h_file.trans h_s.1, h_folder.trans h_s.2⟩

/-- A server with a link out of its folder. -/
def linkedServer : LinkTree String :=
  .folder "etc" (.file "passwd" (.regular "root") .empty) (.folder "srv" (.folder "servers"
    (.folder "s" (.file "a.txt" (.regular "old") (.file "link" (.link "/etc") .empty)) .empty)
    .empty) .empty)

theorem isName_srv : ∀ n ∈ ["srv"], IsName n := by
  intro n h_n
  rw [List.mem_singleton.mp h_n]
  exact ⟨by decide, by decide, by decide, by decide⟩

def panelHost : Host where
  cwd := ["srv"]
  cwd_names := isName_srv
  limit := 40

/-- An account that may write the files of the one server. -/
def writer : Rights where
  user := some {
    isAdmin := false
    access := { levels := JsMap.JsObject.empty.set .files .write, ext := [] }
    serversRestrict := { enabled := true, allowed := ["s"] } }
  serverIds := ["s"]

theorem spares_passwd {t : LinkTree String} (command : Command String)
    (h_base : t.realpath 40 ["srv", "servers", "s"] = .ok ["srv", "servers", "s"])
    (h_file : t.fileAt ["etc", "passwd"] = some (.regular "root")) :
    Spares panelHost ["etc", "passwd"] t (.ftp writer command) := by
  refine .inr ?_
  rintro ⟨base, ⟨user, serverId, full, -, h_id, -, h_full, h_real⟩, h_within⟩
  obtain rfl : serverId = "s" := List.mem_singleton.mp h_id
  have h_path : getSafeServerPath panelHost.cwd "s" "" = some ["srv", "servers", "s"] := by
    decide +kernel
  rw [h_path, Option.some.injEq] at h_full
  rw [← h_full, panelHost, h_base, Except.ok.injEq] at h_real
  obtain h_pre | ⟨⟨target, h_link⟩, -⟩ := h_within
  · rw [← h_real] at h_pre
    exact absurd h_pre (by decide)
  · rw [h_file] at h_link
    cases h_link

/-- A file is written; that the link is written through or emptied is refused. -/
theorem sessions_stay_inside_linked :
    let written := (perform panelHost linkedServer writer (.createWriteStream "/s/a.txt" "new")).1
    let moved := (perform panelHost written writer (.rename "s/a.txt" "/s/link/passwd")).1
    written.fileAt ["srv", "servers", "s", "a.txt"] = some (.regular "new") ∧
      moved.fileAt ["etc", "passwd"] = some (.regular "root") := by
  intro written moved
  have h_first := spares_passwd (.createWriteStream "/s/a.txt" "new")
    (show linkedServer.realpath 40 _ = _ by decide +kernel) (by decide +kernel)
  have h_second := spares_passwd (.rename "s/a.txt" "/s/link/passwd")
    (show written.realpath 40 _ = _ by decide +kernel) (by decide +kernel)
  have h_stays := sessions_stay_inside panelHost linkedServer ["etc", "passwd"]
    (.step (.step (.init rfl) h_first rfl) h_second rfl)
  exact ⟨by decide +kernel, h_stays.1.1.trans (by decide +kernel)⟩

end Runs

end Kubek.Ftp
