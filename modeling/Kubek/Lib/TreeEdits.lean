/-
  Kubek.Lib.TreeEdits

  Edits of a tree that stay below one folder: a file written, a file removed. Each says what
  it does to the files; `SameOutside` is what all of them leave alone.
-/

import Kubek.Lib.FileTree

namespace FileTree.Folder

universe u

variable {α : Type u}

/-! ## Removing a file -/

/-- Remove the file at a path; nothing else is removed. -/
def removeFile : Path → Folder α → Folder α
  | [], f => f
  | [n], f =>
      match f.get n with
      | some (.file _) => f.erase n
      | _ => f
  | n :: m :: p, f =>
      match f.get n with
      | some (.folder g) => f.put n (.folder (removeFile (m :: p) g))
      | _ => f

section RemoveFile

variable {f : Folder α} {n : String} {p q : Path}

attribute [local simp] removeFile in
theorem removeFile_file {a : α} (h : f.get n = some (.file a)) : f.removeFile [n] = f.erase n := by
  rw [removeFile, h]

theorem removeFile_of_not_file (h : ∀ a, f.get n ≠ some (.file a)) : f.removeFile [n] = f := by
  rw [removeFile]
  split
  · rename_i a h_get
    exact absurd h_get (h a)
  · rfl

theorem removeFile_folder {m : String} {g : Folder α} (h : f.get n = some (.folder g)) :
    f.removeFile (n :: m :: p) = f.put n (.folder (g.removeFile (m :: p))) := by
  rw [removeFile, h]

theorem removeFile_of_not_folder {m : String} (h : ∀ g, f.get n ≠ some (.folder g)) :
    f.removeFile (n :: m :: p) = f := by
  rw [removeFile]
  split
  · rename_i g h_get
    exact absurd h_get (h g)
  · rfl

/-- The file is gone, the others are as they were. -/
theorem fileAt_removeFile (f : Folder α) (p q : Path) :
    (f.removeFile p).fileAt q = if q = p then none else f.fileAt q := by
  induction p generalizing f q with
  | nil =>
    show f.fileAt q = _
    split
    · rename_i h_q
      rw [h_q]
      rfl
    · rfl
  | cons n p ih =>
    cases q with
    | nil => rw [fileAt_nil, fileAt_nil, if_neg (List.cons_ne_nil n p).symm]
    | cons k q =>
      cases p with
      | nil =>
        by_cases h_file : ∃ a, f.get n = some (.file a)
        · obtain ⟨a, h_a⟩ := h_file
          rw [removeFile_file h_a, fileAt_erase, List.head?_cons]
          by_cases h_k : k = n
          · subst h_k
            rw [if_pos rfl, fileAt_cons_file h_a]
            by_cases h_q : q = []
            · rw [h_q, if_pos rfl]
            · rw [if_neg h_q, if_neg fun h_eq => h_q (List.cons.inj h_eq).2]
          · rw [if_neg fun h_eq => h_k (Option.some.inj h_eq),
              if_neg fun h_eq => h_k (List.cons.inj h_eq).1]
        · rw [removeFile_of_not_file (not_exists.mp h_file)]
          split
          · rename_i h_eq
            obtain ⟨rfl, rfl⟩ := List.cons.inj h_eq
            rw [fileAt_cons (not_exists.mp h_file)]
            rfl
          · rfl
      | cons m r =>
        by_cases h_folder : ∃ g, f.get n = some (.folder g)
        · obtain ⟨g, h_g⟩ := h_folder
          rw [removeFile_folder h_g]
          by_cases h_k : k = n
          · subst h_k
            rw [fileAt_cons_folder get_put_self, fileAt_cons_folder h_g, ih]
            simp only [List.cons.injEq, true_and]
          · rw [fileAt_congr (get_put_ne h_k), if_neg fun h_eq => h_k (List.cons.inj h_eq).1]
        · rw [removeFile_of_not_folder (not_exists.mp h_folder)]
          split
          · rename_i h_eq
            obtain ⟨rfl, rfl⟩ := List.cons.inj h_eq
            cases h_get : f.get k with
            | none => rw [fileAt_cons_none h_get]
            | some node =>
              cases node with
              | file a => rw [fileAt_cons_file h_get, if_neg (List.cons_ne_nil m r)]
              | folder g => exact absurd ⟨g, h_get⟩ h_folder
          · rfl

theorem isFolder_removeFile (f : Folder α) (p q : Path) :
    (f.removeFile p).isFolder q = f.isFolder q := by
  induction p generalizing f q with
  | nil => rfl
  | cons n p ih =>
    cases q with
    | nil => rfl
    | cons k q =>
      cases p with
      | nil =>
        by_cases h_file : ∃ a, f.get n = some (.file a)
        · obtain ⟨a, h_a⟩ := h_file
          rw [removeFile_file h_a]
          by_cases h_k : k = n
          · subst h_k
            rw [isFolder_cons_file h_a, isFolder_cons_none]
            rw [get_erase, if_pos rfl]
          · apply isFolder_congr
            rw [get_erase, if_neg h_k]
        · rw [removeFile_of_not_file (not_exists.mp h_file)]
      | cons m r =>
        by_cases h_folder : ∃ g, f.get n = some (.folder g)
        · obtain ⟨g, h_g⟩ := h_folder
          rw [removeFile_folder h_g]
          by_cases h_k : k = n
          · subst h_k
            rw [isFolder_cons_folder get_put_self, isFolder_cons_folder h_g, ih]
          · exact isFolder_congr (get_put_ne h_k)
        · rw [removeFile_of_not_folder (not_exists.mp h_folder)]

end RemoveFile

/-! ## Staying below a folder -/

section Below

variable {f f' f'' : Folder α} {a : α} {dir p q : Path}

/-- A folder that is there is still there when a file has been written. -/
theorem isFolder_writeFile_of (h : writeFile a p f = some f') (h_q : f.isFolder q = true) :
    f'.isFolder q = true := by
  induction p generalizing f f' q with
  | nil => cases h
  | cons n p ih =>
    cases q with
    | nil => rfl
    | cons k q =>
      obtain ⟨n', h_eq, h_folder, rfl⟩ | ⟨n', m, r, g', h_eq, h_file, h_g', rfl⟩ :=
        writeFile_cases h
      · obtain ⟨rfl, rfl⟩ := List.cons.inj h_eq
        have h_k : k ≠ n := by
          rintro rfl
          -- what the file replaces is no folder
          cases h_get : f.get k with
          | none =>
            rw [isFolder_cons_none h_get] at h_q
            cases h_q
          | some node =>
            cases node with
            | file b =>
              rw [isFolder_cons_file h_get] at h_q
              cases h_q
            | folder g => exact h_folder g h_get
        rwa [isFolder_congr (get_put_ne h_k)]
      · obtain ⟨rfl, rfl⟩ := List.cons.inj h_eq
        by_cases h_k : k = n
        · subst h_k
          rw [isFolder_cons_folder get_put_self]
          by_cases h_nil : q = []
          · rw [h_nil]
            rfl
          · rw [isFolder_cons h_file h_nil] at h_q
            exact ih h_g' h_q
        · rwa [isFolder_congr (get_put_ne h_k)]

/-- Neither a file nor a folder outside has changed, and the folder is still one. -/
structure SameOutside (dir : Path) (f f' : Folder α) : Prop where
  files : ∀ q, ¬ dir <+: q → f'.fileAt q = f.fileAt q
  folders : ∀ q, ¬ dir <+: q → f'.isFolder q = f.isFolder q
  dir : f'.isFolder dir = true

theorem SameOutside.refl (h : f.isFolder dir = true) : SameOutside dir f f :=
  ⟨fun _ _ => rfl, fun _ _ => rfl, h⟩

theorem SameOutside.trans (h : SameOutside dir f f') (h' : SameOutside dir f' f'') :
    SameOutside dir f f'' where
  files q h_q := (h'.files q h_q).trans (h.files q h_q)
  folders q h_q := (h'.folders q h_q).trans (h.folders q h_q)
  dir := h'.dir

theorem sameOutside_writeFile (h_dir : f.isFolder dir = true)
    (h : writeFile a (dir ++ p) f = some f') : SameOutside dir f f' where
  files q h_q := by
    rw [fileAt_writeFile h, if_neg]
    rintro rfl
    exact h_q (List.prefix_append dir p)
  folders q h_q := by
    cases h_new : f'.isFolder q with
    | true =>
      obtain h_old | ⟨r, h_r, h_eq⟩ := isFolder_writeFile h h_new
      · exact h_old.symm
      · -- a new folder lies above the file, so it is above the folder itself
        have h_pre : q <+: dir ++ p := ⟨r, h_eq.symm⟩
        obtain h_above | h_below := List.prefix_or_prefix_of_prefix h_pre (List.prefix_append dir p)
        · obtain ⟨s, rfl⟩ := h_above
          have h_s : s ≠ [] := by
            rintro rfl
            exact h_q ⟨[], by rw [List.append_nil, List.append_nil]⟩
          have h_some : (f.lookup (q ++ s)).isSome = true := lookup_isSome_of_isFolder h_dir
          exact (isFolder_of_append h_some h_s).symm
        · exact absurd h_below h_q
    | false =>
      cases h_old : f.isFolder q with
      | false => rfl
      | true =>
        rw [isFolder_writeFile_of h h_old] at h_new
        cases h_new
  dir := isFolder_writeFile_of h h_dir

theorem sameOutside_removeFile (h_dir : f.isFolder dir = true) (p : Path) :
    SameOutside dir f (f.removeFile (dir ++ p)) where
  files q h_q := by
    rw [fileAt_removeFile, if_neg]
    rintro rfl
    exact h_q (List.prefix_append dir p)
  folders q _ := isFolder_removeFile f (dir ++ p) q
  dir := by rwa [isFolder_removeFile]

end Below

end FileTree.Folder
