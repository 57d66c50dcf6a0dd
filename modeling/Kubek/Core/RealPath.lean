/-
  Kubek.Core.RealPath

  The checks of where a path really leads: `isRealInside` of `core/utils/paths.ts`, which
  every HTTP request passes, and `assertRealInside` of `modules/ftp/ftp-fs.ts`.

  Both climb from the target to the nearest existing folder above it. The loops take fuel;
  `probeUp_ends` says how much is enough. The file system is a `LinkTree`, its limit of
  links to follow is arbitrary, and the tree stays as it is between the check and the write.
  Permissions, and limits on the length of a name, are left out.
-/

import Kubek.Core.Paths
import Kubek.Lib.LinkTree

namespace Kubek.Paths

open FileTree (Path Errno LinkTree IsName)
open FileTree.Folder (Free AlikeOutside)

variable {α : Type}

/-- The segments of a path text, as the system reads it. -/
def segmentsOf (cwd : Path) (text : String) : List String :=
  if isAbsolute text then JsText.split '/' text else cwd ++ JsText.split '/' text

/-- The loop of `isRealInside`, from `probe` up. -/
def probeUp (t : LinkTree α) (limit : Nat) (realBase : Path) (allowMissing : Bool) :
    Nat → Path → Option Bool
  | 0, _ => none
  | fuel + 1, probe =>
      match t.realpath limit probe with
      | .ok real => some (isInside realBase real)
      | .error code =>
          if code ≠ .ENOENT ∨ allowMissing = false then some false
          -- Writing through a dangling link creates its target.
          else if t.isLink limit probe then some false
          else
            let parent := probe.dropLast
            if parent = probe then some false
            else probeUp t limit realBase allowMissing fuel parent

/-- `none` where the fuel ran out. -/
def isRealInside (t : LinkTree α) (limit fuel : Nat) (cwd : Path) (base target : String)
    (allowMissing : Bool) : Option Bool :=
  match t.realpath limit (segmentsOf cwd base) with
  | .error _ => some false
  | .ok realBase => probeUp t limit realBase allowMissing fuel (resolve cwd target)

/-! ## The FTP check -/

structure FsError where
  code : String
  message : String
  deriving DecidableEq

def fsError (code message : String) : FsError := { code, message := code ++ ": " ++ message }

def errnoCode : Errno → String
  | .ENOENT => "ENOENT"
  | .ENOTDIR => "ENOTDIR"
  | .ELOOP => "ELOOP"
  | .EEXIST => "EEXIST"
  | .EISDIR => "EISDIR"

/-- The characters of the names, each behind its slash. -/
def joined (path : Path) : List Char := path.flatMap fun name => '/' :: name.toList

/-- The text of an absolute path. -/
def textOf (path : Path) : String := if path = [] then "/" else String.ofList (joined path)

/-- `isInside` of `ftp-fs.ts`, on texts. -/
def isInsideText (base full : String) : Bool :=
  full == base || (base ++ "/").toList.isPrefixOf full.toList

/-- `assertRealInside`; `none` where the fuel ran out. -/
def assertRealInside (t : LinkTree α) (limit : Nat) (base : String) (mustExist : Bool) :
    Nat → Path → Option (Except FsError Unit)
  | 0, _ => none
  | fuel + 1, probe =>
      match t.realpath limit probe with
      | .error code =>
          if code ≠ .ENOENT ∨ mustExist then
            some (.error (fsError (errnoCode code) "no such file or directory"))
          else if t.isLink limit probe then some (.error (fsError "EACCES" "dangling symlink"))
          else
            let parent := probe.dropLast
            if parent = probe then some (.error (fsError "ENOENT" "no parent"))
            else assertRealInside t limit base mustExist fuel parent
      | .ok real =>
          if isInsideText base (textOf real) then some (.ok ())
          else some (.error (fsError "EACCES" "path leaves the server directory"))

/-- The real path check of `FtpFs.resolve`, in the folder that `serverBase` finds. -/
def checkRealPath (t : LinkTree α) (limit fuel : Nat) (cwd : Path) (base target : String)
    (mustExist : Bool) : Option (Except FsError Unit) :=
  match t.realpath limit (segmentsOf cwd base) with
  | .error _ => some (.error (fsError "ENOENT" "server directory missing"))
  | .ok realBase =>
      assertRealInside t limit (textOf realBase) mustExist fuel (resolve cwd target)

/-! ## The loop ends -/

section Probe

variable {t : LinkTree α} {limit fuel : Nat} {realBase real probe : Path} {allowMissing : Bool}

/-- The parent of a probe is shorter, up to the root, which is its own parent. -/
theorem probeUp_ends (t : LinkTree α) (limit : Nat) (realBase : Path) (allowMissing : Bool)
    (probe : Path) : ∃ answer, ∀ fuel, probe.length < fuel →
      probeUp t limit realBase allowMissing fuel probe = some answer := by
  induction probe using List.reverseRecOn with
  | nil =>
    refine ⟨isInside realBase [], fun fuel h_fuel => ?_⟩
    obtain ⟨fuel, rfl⟩ := Nat.exists_eq_succ_of_ne_zero (Nat.ne_of_gt h_fuel)
    have h_root : t.realpath limit [] = .ok [] := by
      apply FileTree.Folder.realpath_ok.mpr
      exact FileTree.Folder.follow_done rfl
    rw [Nat.succ_eq_add_one, probeUp, h_root]
  | append_singleton init name ih =>
    obtain ⟨answer, h_answer⟩ := ih
    cases h_real : t.realpath limit (init ++ [name]) with
    | ok real =>
      refine ⟨isInside realBase real, fun fuel h_fuel => ?_⟩
      obtain ⟨fuel, rfl⟩ := Nat.exists_eq_succ_of_ne_zero (Nat.ne_of_gt (Nat.zero_lt_of_lt h_fuel))
      rw [Nat.succ_eq_add_one, probeUp, h_real]
    | error code =>
      refine ⟨if code ≠ .ENOENT ∨ allowMissing = false then false
        else if t.isLink limit (init ++ [name]) then false else answer, fun fuel h_fuel => ?_⟩
      obtain ⟨fuel, rfl⟩ := Nat.exists_eq_succ_of_ne_zero (Nat.ne_of_gt (Nat.zero_lt_of_lt h_fuel))
      have h_init : init.length < fuel := by
        rw [List.length_append, List.length_singleton] at h_fuel
        omega
      have h_parent : init ≠ init ++ [name] := fun h => by simpa using congrArg List.length h
      rw [Nat.succ_eq_add_one, probeUp, h_real]
      simp only [List.dropLast_concat, h_parent, if_false, h_answer fuel h_init]
      split
      · rfl
      · split <;> rfl

/-- Where the loop says yes: some folder or file above the target, or the target, is found inside the base,
    and there is nothing of the name behind it. -/
theorem probeUp_true (h_names : ∀ n ∈ probe, IsName n)
    (h : probeUp t limit realBase allowMissing fuel probe = some true) :
    ∃ made rest real, probe = made ++ rest ∧ t.follow limit [] made = .found real ∧
      isInside realBase real = true ∧
      ∀ name rest', rest = name :: rest' → t.isFolder real = true ∧ Free t real name := by
  induction fuel generalizing probe with
  | zero => cases h
  | succ fuel ih =>
    rw [probeUp] at h
    cases h_real : t.realpath limit probe with
    | ok real =>
      rw [h_real] at h
      refine ⟨probe, [], real, (List.append_nil _).symm, ?_, by simpa using h, ?_⟩
      · exact FileTree.Folder.realpath_ok.mp h_real
      · exact fun name rest' h_rest => by cases h_rest
    | error code =>
      simp only [h_real] at h
      split at h
      · cases h
      · rename_i h_code
        rw [not_or, not_not] at h_code
        split at h
        · cases h
        · rename_i h_link
          split at h
          · cases h
          · rename_i h_parent
            obtain ⟨init, name, rfl⟩ : ∃ init name, probe = init ++ [name] := by
              obtain rfl | ⟨init, name, rfl⟩ := List.eq_nil_or_concat probe
              · exact absurd rfl h_parent
              · exact ⟨init, name, List.concat_eq_append⟩
            rw [List.dropLast_concat] at h
            obtain ⟨made, rest, real, rfl, h_made, h_inside, h_rest⟩ :=
              ih (fun n h_n => h_names n (List.mem_append_left _ h_n)) h
            refine ⟨made, rest ++ [name], real, by simp, h_made, h_inside, ?_⟩
            intro first rest' h_first
            cases rest with
            | nil =>
              cases h_first
              rw [List.append_nil] at h_real h_link
              rw [h_code.1] at h_real
              exact FileTree.Folder.free_of_enoent h_made (h_names name (by simp)) h_real
                (by simpa using h_link)
            | cons n rest =>
              cases h_first
              exact h_rest _ rest rfl

end Probe

/-! ## The texts of paths -/

section Texts

variable {p q : Path} {xs ys : List Char}

theorem joined_head {c : Char} (h : c ∈ (joined p).head?) : c = '/' := by
  cases p with
  | nil => cases h
  | cons n p =>
    rw [joined, List.flatMap_cons, List.cons_append] at h
    exact (Option.mem_some_iff.mp h).symm

/-- Slash-free texts before the next slash, or the end, are equal where the whole is. -/
theorem first_name {cs ds : List Char} (h : cs ++ xs = ds ++ ys) (h_cs : '/' ∉ cs)
    (h_ds : '/' ∉ ds) (h_xs : ∀ c ∈ xs.head?, c = '/') (h_ys : ∀ c ∈ ys.head?, c = '/') :
    cs = ds ∧ xs = ys := by
  induction cs generalizing ds with
  | nil =>
    cases ds with
    | nil => exact ⟨rfl, h⟩
    | cons d ds =>
      have h_d : d = '/' := h_xs d (by rw [List.nil_append] at h; rw [h]; rfl)
      exact absurd (h_d ▸ List.mem_cons_self) h_ds
  | cons c cs ih =>
    cases ds with
    | nil =>
      have h_c : c = '/' := h_ys c (by rw [List.nil_append] at h; rw [← h]; rfl)
      exact absurd (h_c ▸ List.mem_cons_self) h_cs
    | cons d ds =>
      rw [List.cons_append, List.cons_append, List.cons.injEq] at h
      obtain ⟨rfl, h_tail⟩ := h
      obtain ⟨rfl, h_eq⟩ := ih h_tail (fun h => h_cs (List.mem_cons_of_mem _ h))
        (fun h => h_ds (List.mem_cons_of_mem _ h))
      exact ⟨rfl, h_eq⟩

/-- One joined path begins with another, at the end of a name, where the path does. -/
theorem pre_of_joined (h_p : ∀ n ∈ p, IsName n) (h_q : ∀ n ∈ q, IsName n)
    (h_xs : ∀ c ∈ xs.head?, c = '/') (h : joined p ++ xs = joined q) : p <+: q := by
  induction p generalizing q with
  | nil => exact List.nil_prefix
  | cons n p ih =>
    cases q with
    | nil => cases h
    | cons m q =>
      simp only [joined, List.flatMap_cons, List.cons_append, List.cons.injEq, true_and,
        List.append_assoc] at h
      have h_tail : ∀ c ∈ (joined p ++ xs).head?, c = '/' := by
        cases p with
        | nil => exact h_xs
        | cons k p => exact fun c h_c => (Option.mem_some_iff.mp h_c).symm
      obtain ⟨h_name, h_rest⟩ := first_name h (h_p n List.mem_cons_self).noSlash
        (h_q m List.mem_cons_self).noSlash h_tail fun c h_c => joined_head h_c
      rw [String.toList_injective h_name, List.cons_prefix_cons]
      exact ⟨rfl, ih (fun k h_k => h_p k (List.mem_cons_of_mem _ h_k))
        (fun k h_k => h_q k (List.mem_cons_of_mem _ h_k)) h_rest⟩

theorem one_lt_joined (h : p ≠ []) (h_p : ∀ n ∈ p, IsName n) : 1 < (joined p).length := by
  obtain ⟨n, p, rfl⟩ := List.exists_cons_of_ne_nil h
  have h_n : n.toList ≠ [] := fun h_nil =>
    (h_p n List.mem_cons_self).nonempty (String.toList_injective (h_nil.trans rfl))
  have h_length := List.length_pos_of_ne_nil h_n
  rw [joined, List.flatMap_cons, List.length_append, List.length_cons]
  omega

/-- The two tests for inside agree, but on the root folder. -/
theorem isInsideText_eq (h_base : p ≠ []) (h_p : ∀ n ∈ p, IsName n) (h_q : ∀ n ∈ q, IsName n) :
    isInsideText (textOf p) (textOf q) = isInside p q := by
  have h_dots : ".." ∉ q := fun h => (h_q _ h).notDots rfl
  have h_text : (textOf p).toList = joined p := by rw [textOf, if_neg h_base, String.toList_ofList]
  rw [Bool.eq_iff_iff, isInside_iff h_dots, isInsideText, Bool.or_eq_true, beq_iff_eq,
    List.isPrefixOf_iff_prefix, String.toList_append, h_text]
  constructor
  · intro h
    have h_long := one_lt_joined h_base h_p
    have h_q_ne : q ≠ [] := by
      rintro rfl
      have h_root : (textOf []).toList.length = 1 := rfl
      obtain h | h := h
      · rw [h, h_text] at h_root
        omega
      · have h_le := h.length_le
        rw [List.length_append, h_root] at h_le
        omega
    have h_text' : (textOf q).toList = joined q := by rw [textOf, if_neg h_q_ne, String.toList_ofList]
    obtain h | ⟨xs, h⟩ := h
    · have h_joined : joined p ++ [] = joined q := by
        rw [List.append_nil, ← h_text, ← h_text', h]
      exact pre_of_joined h_p h_q (fun c h_c => by cases h_c) h_joined
    · rw [h_text', List.append_assoc] at h
      exact pre_of_joined h_p h_q (fun c h_c => (Option.mem_some_iff.mp h_c).symm) h
  · rintro ⟨rest, rfl⟩
    have h_ne : p ++ rest ≠ [] := by simp [h_base]
    cases rest with
    | nil => exact .inl (by rw [List.append_nil])
    | cons n rest =>
      apply Or.inr
      rw [textOf, if_neg h_ne, String.toList_ofList]
      exact ⟨n.toList ++ joined rest, by simp [joined]⟩

end Texts

/-! ## The jail -/

section Jail

variable {t : LinkTree α} {limit : Nat} {realBase probe cwd : Path}

/-- A resolved path consists of names. -/
theorem isName_resolveFrom {segments : List String} (h_start : ∀ n ∈ cwd, IsName n)
    (h_segs : ∀ s ∈ segments, '/' ∉ s.toList) : ∀ n ∈ resolveFrom cwd segments, IsName n := by
  induction segments generalizing cwd with
  | nil => exact h_start
  | cons segment segments ih =>
    have h_rest : ∀ s ∈ segments, '/' ∉ s.toList :=
      fun s h_s => h_segs s (List.mem_cons_of_mem _ h_s)
    apply ih _ h_rest
    rw [resolveOne]
    split
    · exact h_start
    · rename_i h_here
      split
      · exact fun n h_n => h_start n (List.dropLast_subset cwd h_n)
      · rename_i h_up
        intro n h_n
        obtain h_n | h_n := List.mem_append.mp h_n
        · exact h_start n h_n
        · rw [List.mem_singleton.mp h_n]
          exact ⟨fun h => h_here (.inl h), fun h => h_here (.inr h), h_up,
            h_segs segment List.mem_cons_self⟩

theorem isName_resolve (h_cwd : ∀ n ∈ cwd, IsName n) (text : String) :
    ∀ n ∈ resolve cwd text, IsName n := by
  rw [resolve]
  apply isName_resolveFrom
  · split
    · exact fun n h_n => by cases h_n
    · exact h_cwd
  · exact fun s h_s => JsText.not_mem_of_mem_split h_s

theorem noSlash_segmentsOf (h_cwd : ∀ n ∈ cwd, IsName n) (text : String) :
    ∀ s ∈ segmentsOf cwd text, '/' ∉ s.toList := by
  intro s h_s
  rw [segmentsOf] at h_s
  split at h_s
  · exact JsText.not_mem_of_mem_split h_s
  · obtain h_s | h_s := List.mem_append.mp h_s
    · exact (h_cwd s h_s).noSlash
    · exact JsText.not_mem_of_mem_split h_s

/-- What is found by segments between slashes has names in its path only. -/
theorem isName_realpath {segments : List String} (h_segs : ∀ s ∈ segments, '/' ∉ s.toList)
    (h : t.realpath limit segments = .ok realBase) : ∀ n ∈ realBase, IsName n := by
  have h_found := FileTree.Folder.realpath_ok.mp h
  exact (FileTree.Folder.real_follow limit [] segments FileTree.Folder.real_nil h_segs h_found).names

/-- Where the loop says yes, a write of the path changes nothing outside the base. -/
theorem createAndWrite_of_probeUp {fuel : Nat} {allowMissing : Bool} (content : α)
    (h_names : ∀ n ∈ probe, IsName n)
    (h : probeUp t limit realBase allowMissing fuel probe = some true) :
    let after := t.createAndWrite limit probe content
    AlikeOutside realBase t after.1 ∧
      (after.2 = true → ∃ p, realBase <+: p ∧ after.1.fileAt p = some (.regular content)) := by
  obtain ⟨made, rest, real, rfl, h_made, h_inside, h_rest⟩ := probeUp_true h_names h
  have h_pre := prefix_of_isInside h_inside
  cases rest with
  | nil =>
    rw [List.append_nil] at h_names ⊢
    obtain ⟨h_alike, h_file⟩ := FileTree.Folder.createAndWrite_found content h_made
      fun s h_s => (h_names s h_s).noSlash
    exact ⟨h_alike.mono h_pre, fun h_ok => ⟨real, h_pre, h_file h_ok⟩⟩
  | cons name rest =>
    obtain ⟨h_dir, h_free⟩ := h_rest name rest rfl
    obtain ⟨h_alike, h_file⟩ := FileTree.Folder.createAndWrite_free content h_made
      h_dir h_free fun n h_n => h_names n (List.mem_append_right _ h_n)
    refine ⟨h_alike.mono (h_pre.trans (List.prefix_append _ _)), fun h_ok => ?_⟩
    exact ⟨real ++ name :: rest, h_pre.trans (List.prefix_append _ _), h_file h_ok⟩

/-- The two loops accept the same. -/
theorem assertRealInside_ok_iff (h_base : realBase ≠ []) (h_realBase : ∀ n ∈ realBase, IsName n)
    (mustExist : Bool) (fuel : Nat) (h_names : ∀ n ∈ probe, IsName n) :
    assertRealInside t limit (textOf realBase) mustExist fuel probe = some (.ok ()) ↔
      probeUp t limit realBase (!mustExist) fuel probe = some true := by
  induction fuel generalizing probe with
  | zero => simp [assertRealInside, probeUp]
  | succ fuel ih =>
    rw [assertRealInside, probeUp]
    cases h_real : t.realpath limit probe with
    | ok real =>
      have h_real_names := isName_realpath (fun s h_s => (h_names s h_s).noSlash) h_real
      simp only [isInsideText_eq h_base h_realBase h_real_names]
      cases isInside realBase real with
      | true => simp
      | false => simp
    | error code =>
      have h_parent := ih (fun n h_n => h_names n (List.dropLast_subset probe h_n))
      simp only [Bool.not_eq_eq_eq_not, Bool.not_false]
      split
      · simp
      · split
        · simp
        · split
          · simp
          · exact h_parent

/-- The jail of both checks: their loops end, a path that is accepted is written inside the
    base, and where the base is not the root folder both accept the same paths. -/
theorem real_path_jail (t : LinkTree α) (limit : Nat) (cwd : Path) (base target : String)
    (content : α) (h_cwd : ∀ n ∈ cwd, IsName n) :
    (∀ allowMissing, ∃ answer, ∀ fuel, (resolve cwd target).length < fuel →
      isRealInside t limit fuel cwd base target allowMissing = some answer) ∧
    (∀ fuel, isRealInside t limit fuel cwd base target true = some true →
      ∃ realBase, t.realpath limit (segmentsOf cwd base) = .ok realBase ∧
        let after := t.createAndWrite limit (resolve cwd target) content
        AlikeOutside realBase t after.1 ∧
          (after.2 = true → ∃ p, realBase <+: p ∧ after.1.fileAt p = some (.regular content))) ∧
    (t.realpath limit (segmentsOf cwd base) ≠ .ok [] → ∀ fuel mustExist,
      checkRealPath t limit fuel cwd base target mustExist = some (.ok ()) ↔
        isRealInside t limit fuel cwd base target (!mustExist) = some true) := by
  have h_target := isName_resolve h_cwd target
  refine ⟨fun allowMissing => ?_, fun fuel h => ?_, fun h_ne fuel mustExist => ?_⟩
  · cases h_base : t.realpath limit (segmentsOf cwd base) with
    | error code => exact ⟨false, fun fuel _ => by rw [isRealInside, h_base]⟩
    | ok realBase =>
      obtain ⟨answer, h_answer⟩ := probeUp_ends t limit realBase allowMissing (resolve cwd target)
      refine ⟨answer, fun fuel h_fuel => ?_⟩
      rw [isRealInside, h_base]
      exact h_answer fuel h_fuel
  · rw [isRealInside] at h
    cases h_base : t.realpath limit (segmentsOf cwd base) with
    | error code =>
      rw [h_base] at h
      cases h
    | ok realBase =>
      rw [h_base] at h
      exact ⟨realBase, rfl, createAndWrite_of_probeUp content h_target h⟩
  · rw [isRealInside, checkRealPath]
    cases h_base : t.realpath limit (segmentsOf cwd base) with
    | error code => simp
    | ok realBase =>
      have h_realBase := isName_realpath (noSlash_segmentsOf h_cwd base) h_base
      have h_root : realBase ≠ [] := fun h_nil => h_ne (h_nil ▸ h_base)
      exact assertRealInside_ok_iff h_root h_realBase mustExist fuel h_target

/-- A server folder with a link out of it, and a dangling one. -/
def linkedTree : LinkTree String :=
  .folder "etc" .empty (.folder "srv" (.folder "s" (.file "link" (.link "/etc")
    (.file "world" (.link "worlds/main") .empty)) .empty) .empty)

/-- A new file under the server folder is accepted, and written there. -/
theorem real_path_jail_linked :
    linkedTree.realpath 40 (segmentsOf [] "/srv/s") ≠ .ok [] ∧
    isRealInside linkedTree 40 9 [] "/srv/s" "/srv/s/plugins/a.jar" true = some true ∧
    checkRealPath linkedTree 40 9 [] "/srv/s" "/srv/s/plugins/a.jar" false = some (.ok ()) ∧
    checkRealPath linkedTree 40 9 [] "/srv/s" "/srv/s/link/passwd" false ≠ some (.ok ()) ∧
    ∃ p, ["srv", "s"] <+: p ∧ (linkedTree.createAndWrite 40
      (resolve [] "/srv/s/plugins/a.jar") "jar").1.fileAt p = some (.regular "jar") := by
  have h_jail := fun target : String =>
    real_path_jail linkedTree 40 [] "/srv/s" target "jar" fun n h_n => by cases h_n
  have h_base : linkedTree.realpath 40 (segmentsOf [] "/srv/s") = .ok ["srv", "s"] := by
    decide +kernel
  have h_ne : linkedTree.realpath 40 (segmentsOf [] "/srv/s") ≠ .ok [] := by
    rw [h_base]
    simp
  have h_accepted : isRealInside linkedTree 40 9 [] "/srv/s" "/srv/s/plugins/a.jar" true =
      some true := by decide +kernel
  refine ⟨h_ne, h_accepted, ?_, ?_, ?_⟩
  · exact ((h_jail _).2.2 h_ne 9 false).mpr h_accepted
  · intro h
    have h_refused := ((h_jail _).2.2 h_ne 9 false).mp h
    exact absurd h_refused (by decide +kernel)
  · obtain ⟨realBase, h_real, -, h_file⟩ := (h_jail _).2.1 9 h_accepted
    rw [h_base] at h_real
    cases h_real
    exact h_file (by decide +kernel)

/-- A path text that goes up behind a link is checked where it resolves to, and would be
    written elsewhere. In the root folder the FTP check refuses what the other accepts. -/
theorem raw_paths_leave_jail :
    (isRealInside linkedTree 40 9 [] "/srv/s" "/srv/s/link/../passwd" true = some true ∧
      ¬ AlikeOutside ["srv", "s"] linkedTree
        (linkedTree.createAndWrite 40 (segmentsOf [] "/srv/s/link/../passwd") "x").1) ∧
    (isRealInside linkedTree 40 9 [] "/" "/srv" true = some true ∧
      checkRealPath linkedTree 40 9 [] "/" "/srv" false ≠ some (.ok ())) := by
  have h_written : (linkedTree.createAndWrite 40
      (segmentsOf [] "/srv/s/link/../passwd") "x").1.fileAt ["passwd"] = some (.regular "x") := by
    decide +kernel
  refine ⟨⟨by decide +kernel, fun h_alike => ?_⟩, by decide +kernel, by decide +kernel⟩
  have h_same := (h_alike ["passwd"] (by decide)).1
  rw [h_written] at h_same
  exact absurd h_same (by decide +kernel)

end Jail

end Kubek.Paths
