/-
  Kubek.Lib.FileTree

  Trees of files and folders, over an arbitrary type of file contents.

  A folder is the list of its entries, each a file or a folder of its own, so every
  walk over a tree is a recursion over `Folder` and every proof about one an induction
  on it. A path is the list of names from the root down. `Distinct` says that no two
  entries of a folder share a name, at any depth; then the entries and the lookups
  (`get`, `lookup`, `fileAt`) say the same.
-/

import Mathlib.Data.List.Basic
import Mathlib.Data.Option.Basic

namespace FileTree

universe u

/-- The entries of a folder. -/
inductive Folder (α : Type u)
  | empty
  | file (name : String) (content : α) (rest : Folder α)
  | folder (name : String) (entries : Folder α) (rest : Folder α)
  deriving DecidableEq

/-- What a name or a path leads to. -/
inductive Node (α : Type u)
  | file (content : α)
  | folder (entries : Folder α)
  deriving DecidableEq

/-- Names from the root down. -/
abbrev Path := List String

namespace Folder

variable {α : Type u}

/-! ## Lookups -/

/-- The entry of a name. -/
def get : Folder α → String → Option (Node α)
  | empty, _ => none
  | file n a rest, name => if n = name then some (.file a) else rest.get name
  | folder n es rest, name => if n = name then some (.folder es) else rest.get name

/-- What is at a path. -/
def lookup (f : Folder α) : Path → Option (Node α)
  | [] => some (.folder f)
  | n :: p =>
      match f.get n with
      | none => none
      | some (.file a) => if p = [] then some (.file a) else none
      | some (.folder g) => g.lookup p

/-- The content of the file at a path. -/
def fileAt (f : Folder α) (p : Path) : Option α :=
  match f.lookup p with
  | some (.file a) => some a
  | _ => none

/-- There is a folder at the path. -/
def isFolder (f : Folder α) (p : Path) : Bool :=
  match f.lookup p with
  | some (.folder _) => true
  | _ => false

/-- The names of the entries. -/
def names : Folder α → List String
  | empty => []
  | file n _ rest => n :: rest.names
  | folder n _ rest => n :: rest.names

/-- No two entries of one folder share a name. -/
def Distinct : Folder α → Prop
  | empty => True
  | file n _ rest => n ∉ rest.names ∧ rest.Distinct
  | folder n es rest => n ∉ rest.names ∧ es.Distinct ∧ rest.Distinct

theorem distinct_empty : (empty : Folder α).Distinct := trivial

theorem get_eq_none {f : Folder α} {n : String} : f.get n = none ↔ n ∉ f.names := by
  induction f with
  | empty => simp [get, names]
  | file m a rest ih =>
    by_cases h : m = n
    · simp [get, names, h]
    · simp [get, names, h, Ne.symm h, ih]
  | folder m es rest _ ih =>
    by_cases h : m = n
    · simp [get, names, h]
    · simp [get, names, h, Ne.symm h, ih]

@[simp] theorem lookup_nil (f : Folder α) : f.lookup [] = some (.folder f) := rfl

@[simp] theorem fileAt_nil (f : Folder α) : f.fileAt [] = none := rfl

@[simp] theorem isFolder_nil (f : Folder α) : f.isFolder [] = true := rfl

section Step

attribute [local simp] get lookup fileAt isFolder

variable {f g : Folder α} {n : String} {p : Path}

theorem fileAt_cons_none (h : f.get n = none) : f.fileAt (n :: p) = none := by
  simp [fileAt, lookup, h]

theorem fileAt_cons_file {a : α} (h : f.get n = some (.file a)) :
    f.fileAt (n :: p) = if p = [] then some a else none := by
  by_cases h_p : p = []
  · simp [fileAt, lookup, h, h_p]
  · simp [fileAt, lookup, h, h_p]

theorem fileAt_cons_folder (h : f.get n = some (.folder g)) :
    f.fileAt (n :: p) = g.fileAt p := by
  simp [fileAt, lookup, h]

theorem isFolder_cons_none (h : f.get n = none) : f.isFolder (n :: p) = false := by
  simp [isFolder, lookup, h]

theorem isFolder_cons_file {a : α} (h : f.get n = some (.file a)) :
    f.isFolder (n :: p) = false := by
  by_cases h_p : p = []
  · simp [isFolder, lookup, h, h_p]
  · simp [isFolder, lookup, h, h_p]

theorem isFolder_cons_folder (h : f.get n = some (.folder g)) :
    f.isFolder (n :: p) = g.isFolder p := by
  simp [isFolder, lookup, h]

/-- A path answers the same wherever its first name leads to the same entry. -/
theorem fileAt_congr (h : f.get n = g.get n) : f.fileAt (n :: p) = g.fileAt (n :: p) := by
  simp only [fileAt, lookup, h]

theorem isFolder_congr (h : f.get n = g.get n) : f.isFolder (n :: p) = g.isFolder (n :: p) := by
  simp only [isFolder, lookup, h]

/-- What is a file of a folder is the first entry or below it, or a file of the rest. -/
theorem fileAt_file {rest : Folder α} {a b : α} (h : n ∉ rest.names) :
    (file n b rest).fileAt p = some a ↔ (p = [n] ∧ b = a) ∨ rest.fileAt p = some a := by
  cases p with
  | nil => simp
  | cons m p =>
    by_cases h_m : n = m
    · subst h_m
      rw [fileAt_cons_file (a := b) (by simp [get]), fileAt_cons_none (get_eq_none.mpr h)]
      by_cases h_p : p = []
      · simp [h_p]
      · simp [h_p]
    · rw [fileAt_congr (g := rest) (by simp [get, h_m])]
      simp [Ne.symm h_m]

theorem fileAt_folder {es rest : Folder α} {a : α} (h : n ∉ rest.names) :
    (folder n es rest).fileAt p = some a ↔
      (∃ q, p = n :: q ∧ es.fileAt q = some a) ∨ rest.fileAt p = some a := by
  cases p with
  | nil => simp
  | cons m p =>
    by_cases h_m : n = m
    · subst h_m
      rw [fileAt_cons_folder (g := es) (by simp [get]), fileAt_cons_none (get_eq_none.mpr h)]
      simp
    · rw [fileAt_congr (g := rest) (by simp [get, h_m])]
      simp [Ne.symm h_m]

/-- Above a file and above a folder are folders. -/
theorem isFolder_of_append {q : Path} (h : (f.lookup (p ++ q)).isSome = true) (h_q : q ≠ []) :
    f.isFolder p = true := by
  induction p generalizing f with
  | nil => rfl
  | cons n p ih =>
    cases h_get : f.get n with
    | none => simp [lookup, h_get] at h
    | some node =>
      cases node with
      | file a => simp [lookup, h_get, h_q] at h
      | folder g =>
        rw [isFolder_cons_folder h_get]
        exact ih (by simpa [lookup, h_get] using h)

theorem lookup_isSome_of_fileAt {a : α} (h : f.fileAt p = some a) :
    (f.lookup p).isSome = true := by
  simp only [fileAt] at h
  split at h
  · rename_i h_at
    simp [h_at]
  · cases h

theorem lookup_isSome_of_isFolder (h : f.isFolder p = true) : (f.lookup p).isSome = true := by
  simp only [isFolder] at h
  split at h
  · rename_i h_at
    simp [h_at]
  · cases h

theorem lookup_append_folder (q : Path) (h : f.lookup p = some (.folder g)) :
    f.lookup (p ++ q) = g.lookup q := by
  induction p generalizing f with
  | nil =>
    cases h
    rfl
  | cons n p ih =>
    cases h_get : f.get n with
    | none => simp [lookup, h_get] at h
    | some node =>
      cases node with
      | file a => simp [lookup, h_get] at h
      | folder g' => simpa [lookup, h_get] using ih (by simpa [lookup, h_get] using h)

/-- Below a file is nothing. -/
theorem lookup_append_file {a : α} {q : Path} (h : f.lookup p = some (.file a)) (h_q : q ≠ []) :
    f.lookup (p ++ q) = none := by
  induction p generalizing f with
  | nil => cases h
  | cons n p ih =>
    cases h_get : f.get n with
    | none => simp [lookup, h_get]
    | some node =>
      cases node with
      | file b => simp [lookup, h_get, h_q]
      | folder g' => simpa [lookup, h_get] using ih (by simpa [lookup, h_get] using h)

/-- A path does not lead to a file and a folder. -/
theorem not_isFolder_of_fileAt {a : α} (h : f.fileAt p = some a) : f.isFolder p = false := by
  simp only [fileAt] at h
  split at h
  · rename_i h_at
    simp [isFolder, h_at]
  · cases h

end Step

/-! ## Writing an entry -/

/-- Replace the entry of a name, or add one. -/
def put (name : String) (node : Node α) : Folder α → Folder α
  | empty =>
      match node with
      | .file a => file name a empty
      | .folder es => folder name es empty
  | file n a rest =>
      if n = name then
        match node with
        | .file b => file n b rest
        | .folder es => folder n es rest
      else file n a (rest.put name node)
  | folder n es rest =>
      if n = name then
        match node with
        | .file b => file n b rest
        | .folder es' => folder n es' rest
      else folder n es (rest.put name node)

section Put

attribute [local simp] Folder.put names

variable {f : Folder α} {name : String} {node : Node α}

@[simp] theorem get_put_self : (f.put name node).get name = some node := by
  induction f with
  | empty => cases node <;> simp [put, get]
  | file n a rest ih =>
    by_cases h : n = name
    · cases node <;> simp [put, get, h]
    · simp [put, get, h, ih]
  | folder n es rest _ ih =>
    by_cases h : n = name
    · cases node <;> simp [put, get, h]
    · simp [put, get, h, ih]

theorem get_put_ne {m : String} (h : m ≠ name) : (f.put name node).get m = f.get m := by
  induction f with
  | empty => cases node <;> simp [put, get, Ne.symm h]
  | file n a rest ih =>
    by_cases h_n : n = name
    · subst h_n
      cases node <;> simp [put, get, Ne.symm h]
    · simp [put, get, h_n, ih]
  | folder n es rest _ ih =>
    by_cases h_n : n = name
    · subst h_n
      cases node <;> simp [put, get, Ne.symm h]
    · simp [put, get, h_n, ih]

theorem mem_names_put {m : String} : m ∈ (f.put name node).names ↔ m = name ∨ m ∈ f.names := by
  by_cases h : m = name
  · have h_get : (f.put name node).get m ≠ none := by simp [h]
    have h_mem : m ∈ (f.put name node).names := by
      by_contra h_not
      exact h_get (get_eq_none.mpr h_not)
    simp [h, h ▸ h_mem]
  · have h_iff : (f.put name node).get m = none ↔ f.get m = none := by rw [get_put_ne h]
    rw [get_eq_none, get_eq_none] at h_iff
    simp only [h, false_or]
    exact not_iff_not.mp h_iff

theorem Distinct.put (h : f.Distinct) (h_node : ∀ es, node = .folder es → es.Distinct) :
    (f.put name node).Distinct := by
  induction f with
  | empty =>
    cases node with
    | file a => exact ⟨by simp [names], trivial⟩
    | folder es => exact ⟨by simp [names], h_node es rfl, trivial⟩
  | file n a rest ih =>
    by_cases h_n : n = name
    · cases node with
      | file b => simpa [Folder.put, h_n, Distinct] using h_n ▸ h
      | folder es =>
        have h_rest : name ∉ rest.names ∧ rest.Distinct := h_n ▸ h
        simpa [Folder.put, h_n, Distinct] using ⟨h_rest.1, h_node es rfl, h_rest.2⟩
    · have h_rest := ih h.2
      simp only [Folder.put, h_n, if_false]
      refine ⟨?_, h_rest⟩
      rw [mem_names_put]
      rintro (h_eq | h_mem)
      · exact h_n h_eq
      · exact h.1 h_mem
  | folder n es rest _ ih =>
    by_cases h_n : n = name
    · cases node with
      | file b =>
        have h_rest : name ∉ rest.names ∧ es.Distinct ∧ rest.Distinct := h_n ▸ h
        simpa [Folder.put, h_n, Distinct] using ⟨h_rest.1, h_rest.2.2⟩
      | folder es' =>
        have h_rest : name ∉ rest.names ∧ es.Distinct ∧ rest.Distinct := h_n ▸ h
        simpa [Folder.put, h_n, Distinct] using ⟨h_rest.1, h_node es' rfl, h_rest.2.2⟩
    · have h_rest := ih h.2.2
      simp only [Folder.put, h_n, if_false]
      refine ⟨?_, h.2.1, h_rest⟩
      rw [mem_names_put]
      rintro (h_eq | h_mem)
      · exact h_n h_eq
      · exact h.1 h_mem

/-- A folder inside a folder without clashes has none. -/
theorem Distinct.get (h : f.Distinct) {es : Folder α} (h_get : f.get name = some (.folder es)) :
    es.Distinct := by
  induction f with
  | empty => cases h_get
  | file n a rest ih =>
    simp only [Folder.get] at h_get
    split at h_get
    · cases h_get
    · exact ih h.2 h_get
  | folder n es' rest _ ih =>
    simp only [Folder.get] at h_get
    split at h_get
    · cases h_get
      exact h.2.1
    · exact ih h.2.2 h_get

end Put

/-! ## Writing a file -/

/-- Write a file, the folders above it made where they are missing. It fails where a folder
    or, above it, a file is in the way. -/
def writeFile (a : α) : Path → Folder α → Option (Folder α)
  | [], _ => none
  | [n], f =>
      match f.get n with
      | some (.folder _) => none
      | _ => some (f.put n (.file a))
  | n :: m :: p, f =>
      match f.get n with
      | some (.file _) => none
      | some (.folder g) => (writeFile a (m :: p) g).map fun g' => f.put n (.folder g')
      | none => (writeFile a (m :: p) empty).map fun g' => f.put n (.folder g')

/-- The entries at a name that is a folder or free. -/
def entriesAt (f : Folder α) (n : String) : Folder α :=
  match f.get n with
  | some (.folder g) => g
  | _ => empty

section WriteFile

attribute [local simp] entriesAt

variable {f f' : Folder α} {a : α} {n : String} {p q : Path}

@[simp] theorem fileAt_empty (p : Path) : (empty : Folder α).fileAt p = none := by
  cases p <;> rfl

theorem isFolder_empty (h : p ≠ []) : (empty : Folder α).isFolder p = false := by
  cases p with
  | nil => exact absurd rfl h
  | cons n p => rfl

theorem distinct_entriesAt (h : f.Distinct) (n : String) : (f.entriesAt n).Distinct := by
  simp only [entriesAt]
  split
  · rename_i g h_get
    exact h.get h_get
  · trivial

/-- Below a name that is no file, lookups are lookups in its entries. -/
theorem fileAt_cons (h : ∀ a, f.get n ≠ some (.file a)) :
    f.fileAt (n :: p) = (f.entriesAt n).fileAt p := by
  cases h_get : f.get n with
  | none => simp [fileAt_cons_none h_get, entriesAt, h_get]
  | some node =>
    cases node with
    | file a => exact absurd h_get (h a)
    | folder g => simp [fileAt_cons_folder h_get, entriesAt, h_get]

theorem isFolder_cons (h : ∀ a, f.get n ≠ some (.file a)) (h_p : p ≠ []) :
    f.isFolder (n :: p) = (f.entriesAt n).isFolder p := by
  cases h_get : f.get n with
  | none => simp [isFolder_cons_none h_get, entriesAt, h_get, isFolder_empty h_p]
  | some node =>
    cases node with
    | file a => exact absurd h_get (h a)
    | folder g => simp [isFolder_cons_folder h_get, entriesAt, h_get]

/-- A file at the top, or one below an entry that is no file. -/
theorem writeFile_cases (h : writeFile a p f = some f') :
    (∃ n, p = [n] ∧ (∀ g, f.get n ≠ some (.folder g)) ∧ f' = f.put n (.file a)) ∨
    ∃ n m r g', p = n :: m :: r ∧ (∀ b, f.get n ≠ some (.file b)) ∧
      writeFile a (m :: r) (f.entriesAt n) = some g' ∧ f' = f.put n (.folder g') := by
  cases p with
  | nil => cases h
  | cons n p =>
    cases p with
    | nil =>
      simp only [writeFile] at h
      split at h
      · cases h
      · rename_i h_get
        cases h
        exact .inl ⟨n, rfl, h_get, rfl⟩
    | cons m r =>
      simp only [writeFile] at h
      split at h
      · cases h
      · rename_i g h_get
        obtain ⟨g', h_g', rfl⟩ := Option.map_eq_some_iff.mp h
        exact .inr ⟨n, m, r, g', rfl, by simp [h_get], by simpa [entriesAt, h_get] using h_g', rfl⟩
      · rename_i h_get
        obtain ⟨g', h_g', rfl⟩ := Option.map_eq_some_iff.mp h
        exact .inr ⟨n, m, r, g', rfl, by simp [h_get], by simpa [entriesAt, h_get] using h_g', rfl⟩

/-- The written file is there, the others are as they were. -/
theorem fileAt_writeFile (h : writeFile a p f = some f') :
    f'.fileAt q = if q = p then some a else f.fileAt q := by
  induction p generalizing f f' q with
  | nil => cases h
  | cons n p ih =>
    cases q with
    | nil => rw [fileAt_nil, fileAt_nil, if_neg (by simp)]
    | cons k q =>
      obtain ⟨n', h_eq, h_folder, rfl⟩ | ⟨n', m, r, g', h_eq, h_file, h_g', rfl⟩ :=
        writeFile_cases h
      · obtain ⟨rfl, rfl⟩ := List.cons.inj h_eq
        by_cases h_k : k = n
        · subst h_k
          rw [fileAt_cons_file get_put_self]
          by_cases h_q : q = []
          · simp [h_q]
          · rw [if_neg h_q, if_neg (by simp [h_q])]
            cases h_get : f.get k with
            | none => rw [fileAt_cons_none h_get]
            | some node =>
              cases node with
              | file b => rw [fileAt_cons_file h_get, if_neg h_q]
              | folder g => exact absurd h_get (h_folder g)
        · rw [fileAt_congr (get_put_ne h_k), if_neg (by simp [h_k])]
      · obtain ⟨rfl, rfl⟩ := List.cons.inj h_eq
        by_cases h_k : k = n
        · subst h_k
          rw [fileAt_cons_folder get_put_self, ih h_g', fileAt_cons h_file]
          simp
        · rw [fileAt_congr (get_put_ne h_k), if_neg (by simp [h_k])]

/-- New folders are only the ones above the file. -/
theorem isFolder_writeFile (h : writeFile a p f = some f') (h_q : f'.isFolder q = true) :
    f.isFolder q = true ∨ ∃ r, r ≠ [] ∧ p = q ++ r := by
  induction p generalizing f f' q with
  | nil => cases h
  | cons n p ih =>
    cases q with
    | nil => exact .inl rfl
    | cons k q =>
      obtain ⟨n', h_eq, h_folder, rfl⟩ | ⟨n', m, r, g', h_eq, h_file, h_g', rfl⟩ :=
        writeFile_cases h
      · obtain ⟨rfl, rfl⟩ := List.cons.inj h_eq
        by_cases h_k : k = n
        · subst h_k
          rw [isFolder_cons_file get_put_self] at h_q
          cases h_q
        · exact .inl (by rwa [isFolder_congr (get_put_ne h_k)] at h_q)
      · obtain ⟨rfl, rfl⟩ := List.cons.inj h_eq
        by_cases h_k : k = n
        · subst h_k
          by_cases h_nil : q = []
          · exact .inr ⟨m :: r, by simp, by simp [h_nil]⟩
          · rw [isFolder_cons_folder get_put_self] at h_q
            obtain h_old | ⟨s, h_s, h_eq⟩ := ih h_g' h_q
            · exact .inl (by rwa [isFolder_cons h_file h_nil])
            · exact .inr ⟨s, h_s, by simp [h_eq]⟩
        · exact .inl (by rwa [isFolder_congr (get_put_ne h_k)] at h_q)

theorem distinct_writeFile (h_f : f.Distinct) (h : writeFile a p f = some f') :
    f'.Distinct := by
  induction p generalizing f f' with
  | nil => cases h
  | cons n p ih =>
    obtain ⟨n', h_eq, h_folder, rfl⟩ | ⟨n', m, r, g', h_eq, h_file, h_g', rfl⟩ :=
      writeFile_cases h
    · exact h_f.put fun es h_es => by cases h_es
    · obtain ⟨rfl, rfl⟩ := List.cons.inj h_eq
      refine h_f.put fun es h_es => ?_
      cases h_es
      exact ih (distinct_entriesAt h_f _) h_g'

/-- Nothing is in the way: no folder at the path and no file above it. -/
theorem writeFile_isSome (h_p : p ≠ []) (h_folder : f.isFolder p = false)
    (h_above : ∀ q r, r ≠ [] → p = q ++ r → f.fileAt q = none) :
    (writeFile a p f).isSome = true := by
  induction p generalizing f with
  | nil => exact absurd rfl h_p
  | cons n p ih =>
    cases p with
    | nil =>
      simp only [writeFile]
      split
      · rename_i g h_get
        rw [isFolder_cons_folder h_get] at h_folder
        cases h_folder
      · rfl
    | cons m r =>
      have h_no_file : ∀ b, f.get n ≠ some (.file b) := by
        intro b h_get
        have h_none := h_above [n] (m :: r) (by simp) rfl
        rw [fileAt_cons_file h_get] at h_none
        simp at h_none
      have h_below : (writeFile a (m :: r) (f.entriesAt n)).isSome = true := by
        apply ih (by simp)
        · rwa [← isFolder_cons h_no_file (by simp)]
        · intro q s h_s h_eq
          rw [← fileAt_cons h_no_file]
          exact h_above (n :: q) s h_s (by simp [h_eq])
      cases h_get : f.get n with
      | none => simpa [writeFile, h_get, entriesAt] using h_below
      | some node =>
        cases node with
        | file b => exact absurd h_get (h_no_file b)
        | folder g => simpa [writeFile, h_get, entriesAt] using h_below

end WriteFile

/-! ## Removing an entry -/

/-- Remove the entry of a name. -/
def erase (name : String) : Folder α → Folder α
  | empty => empty
  | file n a rest => if n = name then rest.erase name else file n a (rest.erase name)
  | folder n es rest => if n = name then rest.erase name else folder n es (rest.erase name)

section Erase

variable {f : Folder α} {name n : String} {p : Path}

theorem get_erase : (f.erase name).get n = if n = name then none else f.get n := by
  induction f with
  | empty => simp [erase, get]
  | file m a rest ih =>
    by_cases h : m = name
    · rw [erase, if_pos h, ih]
      by_cases h_n : n = name
      · rw [if_pos h_n, if_pos h_n]
      · rw [if_neg h_n, if_neg h_n, get, if_neg fun h_eq => h_n (h_eq.symm.trans h)]
    · rw [erase, if_neg h, get, ih, get]
      by_cases h_m : m = n
      · rw [if_pos h_m, if_pos h_m, if_neg fun h_eq => h (h_m.trans h_eq)]
      · rw [if_neg h_m, if_neg h_m]
  | folder m es rest _ ih =>
    by_cases h : m = name
    · rw [erase, if_pos h, ih]
      by_cases h_n : n = name
      · rw [if_pos h_n, if_pos h_n]
      · rw [if_neg h_n, if_neg h_n, get, if_neg fun h_eq => h_n (h_eq.symm.trans h)]
    · rw [erase, if_neg h, get, ih, get]
      by_cases h_m : m = n
      · rw [if_pos h_m, if_pos h_m, if_neg fun h_eq => h (h_m.trans h_eq)]
      · rw [if_neg h_m, if_neg h_m]

theorem fileAt_erase : (f.erase name).fileAt p = if p.head? = some name then none else f.fileAt p := by
  cases p with
  | nil => rfl
  | cons n p =>
    by_cases h : n = name
    · rw [fileAt_cons_none (by rw [get_erase, if_pos h]), List.head?_cons, if_pos (by rw [h])]
    · rw [fileAt_congr (g := f) (by rw [get_erase, if_neg h]), List.head?_cons,
        if_neg fun h_eq => h (Option.some.inj h_eq)]

end Erase

/-! ## Copying a folder over another -/

/-- Copy the entries of a folder into another one, folder into folder and file over file.
    The copy stops where a file would take the place of a folder or a folder that of a file;
    what was copied before stays. -/
def copyInto : Folder α → Folder α → Folder α × Bool
  | empty, dest => (dest, true)
  | file n a rest, dest =>
      match dest.get n with
      | some (.folder _) => (dest, false)
      | _ => rest.copyInto (dest.put n (.file a))
  | folder n es rest, dest =>
      match dest.get n with
      | some (.file _) => (dest, false)
      | _ =>
          let inner := es.copyInto (dest.entriesAt n)
          if inner.2 then rest.copyInto (dest.put n (.folder inner.1))
          else (dest.put n (.folder inner.1), false)

section CopyInto

attribute [local simp] copyInto

variable {src dest es : Folder α} {a : α} {n m : String} {p : Path}

theorem copyInto_file (h : ∀ g, dest.get n ≠ some (.folder g)) :
    (file n a src).copyInto dest = src.copyInto (dest.put n (.file a)) := by
  cases h_get : dest.get n with
  | none => simp only [copyInto, h_get]
  | some node =>
    cases node with
    | file b => simp only [copyInto, h_get]
    | folder g => exact absurd h_get (h g)

theorem copyInto_folder (h : ∀ b, dest.get n ≠ some (.file b)) :
    (folder n es src).copyInto dest =
      if (es.copyInto (dest.entriesAt n)).2 then
        src.copyInto (dest.put n (.folder (es.copyInto (dest.entriesAt n)).1))
      else (dest.put n (.folder (es.copyInto (dest.entriesAt n)).1), false) := by
  cases h_get : dest.get n with
  | none => simp only [copyInto, h_get]
  | some node =>
    cases node with
    | file b => exact absurd h_get (h b)
    | folder g => simp only [copyInto, h_get]

/-- A name that the source has not keeps its entry. -/
theorem get_copyInto_of_not_mem (h : m ∉ src.names) : (src.copyInto dest).1.get m = dest.get m := by
  induction src generalizing dest with
  | empty => rfl
  | file n a rest ih =>
    obtain ⟨h_ne, h_rest⟩ := not_or.mp (List.mem_cons.not.mp h)
    by_cases h_folder : ∃ g, dest.get n = some (.folder g)
    · obtain ⟨g, h_g⟩ := h_folder
      simp only [copyInto, h_g]
    · rw [copyInto_file (not_exists.mp h_folder), ih h_rest, get_put_ne h_ne]
  | folder n es rest _ ih =>
    obtain ⟨h_ne, h_rest⟩ := not_or.mp (List.mem_cons.not.mp h)
    by_cases h_file : ∃ b, dest.get n = some (.file b)
    · obtain ⟨b, h_b⟩ := h_file
      simp only [copyInto, h_b]
    · rw [copyInto_folder (not_exists.mp h_file)]
      split
      · rw [ih h_rest, get_put_ne h_ne]
      · exact get_put_ne h_ne

/-- Where both have an entry, the two are of one kind. -/
def KindsFit (src dest : Folder α) (m : String) : Prop :=
  (∀ a g, src.get m = some (.file a) → dest.get m ≠ some (.folder g)) ∧
    ∀ es b, src.get m = some (.folder es) → dest.get m ≠ some (.file b)

/-- The entry of a name once it is copied. -/
def overlay (src dest : Folder α) (m : String) : Option (Node α) :=
  match src.get m with
  | none => dest.get m
  | some (.file a) => some (.file a)
  | some (.folder es) => some (.folder (es.copyInto (dest.entriesAt m)).1)

theorem entriesAt_congr {f g : Folder α} (h : f.get m = g.get m) :
    f.entriesAt m = g.entriesAt m := by
  simp only [entriesAt, h]

theorem kindsFit_congr {src' dest' : Folder α} (h_src : src.get m = src'.get m)
    (h_dest : dest.get m = dest'.get m) : KindsFit src dest m ↔ KindsFit src' dest' m := by
  simp only [KindsFit, h_src, h_dest]

theorem overlay_congr {src' dest' : Folder α} (h_src : src.get m = src'.get m)
    (h_dest : dest.get m = dest'.get m) : overlay src dest m = overlay src' dest' m := by
  simp only [overlay, h_src, h_dest, entriesAt_congr h_dest]

theorem get_file_ne (h : m ≠ n) : (file n a src).get m = src.get m := by
  simp [get, Ne.symm h]

theorem get_folder_ne (h : m ≠ n) : (folder n es src).get m = src.get m := by
  simp [get, Ne.symm h]

/-- An entry is copied, or the copy has failed and it is as it was. -/
theorem get_copyInto (dest : Folder α) (m : String) (h : src.Distinct) :
    (KindsFit src dest m ∧ (src.copyInto dest).1.get m = overlay src dest m) ∨
      ((src.copyInto dest).2 = false ∧ (src.copyInto dest).1.get m = dest.get m) := by
  induction src generalizing dest with
  | empty => exact .inl ⟨⟨by simp [get], by simp [get]⟩, by simp [overlay, get, copyInto]⟩
  | file n a rest ih =>
    by_cases h_folder : ∃ g, dest.get n = some (.folder g)
    · obtain ⟨g, h_g⟩ := h_folder
      exact .inr (by simp [copyInto, h_g])
    · have h_no := not_exists.mp h_folder
      rw [copyInto_file h_no]
      by_cases h_m : m = n
      · subst h_m
        refine .inl ⟨⟨fun _ g _ => h_no g, by simp [get]⟩, ?_⟩
        rw [get_copyInto_of_not_mem h.1, get_put_self]
        simp [overlay, get]
      · have h_rest := @ih (dest.put n (.file a)) h.2
        rwa [get_put_ne h_m, ← kindsFit_congr (get_file_ne h_m) (get_put_ne h_m).symm,
          ← overlay_congr (get_file_ne h_m) (get_put_ne h_m).symm] at h_rest
  | folder n es rest _ ih =>
    by_cases h_file : ∃ b, dest.get n = some (.file b)
    · obtain ⟨b, h_b⟩ := h_file
      exact .inr (by simp [copyInto, h_b])
    · have h_no := not_exists.mp h_file
      rw [copyInto_folder h_no]
      by_cases h_m : m = n
      · subst h_m
        refine .inl ⟨⟨by simp [get], fun _ b _ => h_no b⟩, ?_⟩
        split
        · rw [get_copyInto_of_not_mem h.1, get_put_self]
          simp [overlay, get]
        · rw [get_put_self]
          simp [overlay, get]
      · split
        · have h_rest := @ih (dest.put n (.folder (es.copyInto (dest.entriesAt n)).1)) h.2.2
          rwa [get_put_ne h_m, ← kindsFit_congr (get_folder_ne h_m) (get_put_ne h_m).symm,
            ← overlay_congr (get_folder_ne h_m) (get_put_ne h_m).symm] at h_rest
        · exact .inr ⟨rfl, get_put_ne h_m⟩

/-- The copy succeeds where every entry fits, and the entries of every folder in turn. -/
theorem copyInto_ok_iff_entries (h : src.Distinct) :
    (src.copyInto dest).2 = true ↔ ∀ m, KindsFit src dest m ∧
      ∀ es, src.get m = some (.folder es) → (es.copyInto (dest.entriesAt m)).2 = true := by
  induction src generalizing dest with
  | empty => simp [copyInto, KindsFit, get]
  | file n a rest ih =>
    have h_none : rest.get n = none := get_eq_none.mpr h.1
    by_cases h_folder : ∃ g, dest.get n = some (.folder g)
    · obtain ⟨g, h_g⟩ := h_folder
      have h_left : ((file n a rest).copyInto dest).2 = false := by simp [copyInto, h_g]
      rw [h_left]
      refine ⟨fun h_eq => (by cases h_eq), fun h_all => ?_⟩
      exact absurd h_g ((h_all n).1.1 a g (by simp [get]))
    · have h_no := not_exists.mp h_folder
      rw [copyInto_file h_no, ih h.2]
      refine forall_congr' fun m => ?_
      by_cases h_m : m = n
      · subst h_m
        have h_kinds : (file m a rest).KindsFit dest m :=
          ⟨fun _ g _ => h_no g, by simp [get]⟩
        exact ⟨fun _ => ⟨h_kinds, by simp [get]⟩,
          fun _ => ⟨by simp [KindsFit, h_none], by simp [h_none]⟩⟩
      · rw [kindsFit_congr (get_file_ne h_m) (get_put_ne h_m).symm, get_file_ne h_m,
          entriesAt_congr (get_put_ne h_m)]
  | folder n es rest _ ih =>
    have h_none : rest.get n = none := get_eq_none.mpr h.1
    by_cases h_file : ∃ b, dest.get n = some (.file b)
    · obtain ⟨b, h_b⟩ := h_file
      have h_left : ((folder n es rest).copyInto dest).2 = false := by simp [copyInto, h_b]
      rw [h_left]
      refine ⟨fun h_eq => (by cases h_eq), fun h_all => ?_⟩
      exact absurd h_b ((h_all n).1.2 es b (by simp [get]))
    · have h_no := not_exists.mp h_file
      rw [copyInto_folder h_no]
      split
      · rename_i h_ok
        rw [ih h.2.2]
        refine forall_congr' fun m => ?_
        by_cases h_m : m = n
        · subst h_m
          have h_kinds : (folder m es rest).KindsFit dest m :=
            ⟨by simp [get], fun _ b _ => h_no b⟩
          exact ⟨fun _ => ⟨h_kinds, by simp [get, h_ok]⟩,
            fun _ => ⟨by simp [KindsFit, h_none], by simp [h_none]⟩⟩
        · rw [kindsFit_congr (get_folder_ne h_m) (get_put_ne h_m).symm, get_folder_ne h_m,
            entriesAt_congr (get_put_ne h_m)]
      · rename_i h_fail
        refine ⟨fun h_eq => (by cases h_eq), fun h_all => ?_⟩
        exact absurd ((h_all n).2 es (by simp [get])) h_fail

/-- A copied folder: the source's files over the destination's. -/
theorem fileAt_copyInto (h : src.Distinct) (h_ok : (src.copyInto dest).2 = true) :
    (src.copyInto dest).1.fileAt p = (src.fileAt p).or (dest.fileAt p) := by
  induction p generalizing src dest with
  | nil => rfl
  | cons m p ih =>
    obtain ⟨h_kinds, h_get⟩ | ⟨h_fail, -⟩ := get_copyInto dest m h
    · cases h_src : src.get m with
      | none =>
        rw [overlay, h_src] at h_get
        rw [fileAt_congr h_get, fileAt_cons_none h_src, Option.none_or]
      | some node =>
        cases node with
        | file a =>
          rw [overlay, h_src] at h_get
          rw [fileAt_cons_file h_get, fileAt_cons_file h_src]
          by_cases h_p : p = []
          · simp [h_p]
          · rw [if_neg h_p, Option.none_or]
            cases h_dest : dest.get m with
            | none => rw [fileAt_cons_none h_dest]
            | some node =>
              cases node with
              | file b => rw [fileAt_cons_file h_dest, if_neg h_p]
              | folder g => exact absurd h_dest (h_kinds.1 a g h_src)
        | folder es =>
          rw [overlay, h_src] at h_get
          have h_inner := ((copyInto_ok_iff_entries h).mp h_ok m).2 es h_src
          rw [fileAt_cons_folder h_get, fileAt_cons_folder h_src, ih (h.get h_src) h_inner,
            fileAt_cons fun b => h_kinds.2 es b h_src]
    · rw [h_ok] at h_fail
      cases h_fail

/-- Copied or not, a path that is no file of the source is as it was. -/
theorem fileAt_copyInto_frame (h : src.Distinct) (h_p : src.fileAt p = none) :
    (src.copyInto dest).1.fileAt p = dest.fileAt p := by
  induction p generalizing src dest with
  | nil => rfl
  | cons m p ih =>
    obtain ⟨h_kinds, h_get⟩ | ⟨-, h_get⟩ := get_copyInto dest m h
    · cases h_src : src.get m with
      | none =>
        rw [overlay, h_src] at h_get
        exact fileAt_congr h_get
      | some node =>
        cases node with
        | file a =>
          rw [overlay, h_src] at h_get
          rw [fileAt_cons_file h_src] at h_p
          rw [fileAt_cons_file h_get, h_p]
          have h_ne : p ≠ [] := fun h_nil => by simp [h_nil] at h_p
          cases h_dest : dest.get m with
          | none => rw [fileAt_cons_none h_dest]
          | some node =>
            cases node with
            | file b => rw [fileAt_cons_file h_dest, if_neg h_ne]
            | folder g => exact absurd h_dest (h_kinds.1 a g h_src)
        | folder es =>
          rw [overlay, h_src] at h_get
          rw [fileAt_cons_folder h_src] at h_p
          rw [fileAt_cons_folder h_get, ih (h.get h_src) h_p,
            fileAt_cons fun b => h_kinds.2 es b h_src]
    · exact fileAt_congr h_get

/-- No file of the source is a folder of the destination and no folder of it a file. -/
def Fits (src dest : Folder α) : Prop :=
  (∀ p a, src.fileAt p = some a → dest.isFolder p = false) ∧
    ∀ p, src.isFolder p = true → dest.fileAt p = none

theorem fits_iff_entries :
    Fits src dest ↔ ∀ m, KindsFit src dest m ∧
      ∀ es, src.get m = some (.folder es) → Fits es (dest.entriesAt m) := by
  constructor
  · intro h m
    have h_kinds : KindsFit src dest m := by
      constructor
      · intro a g h_src h_dest
        have h_file := h.1 [m] a (by simp [fileAt_cons_file h_src])
        rw [isFolder_cons_folder h_dest] at h_file
        cases h_file
      · intro es b h_src h_dest
        have h_folder := h.2 [m] (by simp [isFolder_cons_folder h_src])
        rw [fileAt_cons_file h_dest] at h_folder
        cases h_folder
    refine ⟨h_kinds, fun es h_src => ⟨fun p a h_p => ?_, fun p h_p => ?_⟩⟩
    · have h_ne : p ≠ [] := fun h_nil => by simp [h_nil] at h_p
      rw [← isFolder_cons (fun b => h_kinds.2 es b h_src) h_ne]
      exact h.1 (m :: p) a (by rwa [fileAt_cons_folder h_src])
    · rw [← fileAt_cons fun b => h_kinds.2 es b h_src]
      exact h.2 (m :: p) (by rwa [isFolder_cons_folder h_src])
  · intro h
    constructor
    · intro p a h_p
      cases p with
      | nil => cases h_p
      | cons m p =>
        obtain ⟨h_kinds, h_es⟩ := h m
        cases h_src : src.get m with
        | none =>
          rw [fileAt_cons_none h_src] at h_p
          cases h_p
        | some node =>
          cases node with
          | file b =>
            cases h_dest : dest.get m with
            | none => exact isFolder_cons_none h_dest
            | some node =>
              cases node with
              | file c => exact isFolder_cons_file h_dest
              | folder g => exact absurd h_dest (h_kinds.1 b g h_src)
          | folder es =>
            rw [fileAt_cons_folder h_src] at h_p
            have h_ne : p ≠ [] := fun h_nil => by simp [h_nil] at h_p
            rw [isFolder_cons (fun b => h_kinds.2 es b h_src) h_ne]
            exact (h_es es h_src).1 p a h_p
    · intro p h_p
      cases p with
      | nil => rfl
      | cons m p =>
        obtain ⟨h_kinds, h_es⟩ := h m
        cases h_src : src.get m with
        | none =>
          rw [isFolder_cons_none h_src] at h_p
          cases h_p
        | some node =>
          cases node with
          | file b =>
            rw [isFolder_cons_file h_src] at h_p
            cases h_p
          | folder es =>
            rw [isFolder_cons_folder h_src] at h_p
            rw [fileAt_cons fun b => h_kinds.2 es b h_src]
            exact (h_es es h_src).2 p h_p

/-- Induction on a tree by what its entries lead to. -/
theorem induction_get {P : Folder α → Prop}
    (step : ∀ f, (∀ m es, f.get m = some (.folder es) → P es) → P f) (f : Folder α) : P f := by
  have h : ∀ m es, f.get m = some (.folder es) → P es := by
    induction f with
    | empty => simp [get]
    | file n a rest ih =>
      intro m es h_get
      simp only [get] at h_get
      split at h_get
      · cases h_get
      · exact ih m es h_get
    | folder n es' rest ih_es ih =>
      intro m es h_get
      simp only [get] at h_get
      split at h_get
      · cases h_get
        exact step _ ih_es
      · exact ih m es h_get
  exact step f h

theorem copyInto_ok_iff (h : src.Distinct) : (src.copyInto dest).2 = true ↔ Fits src dest := by
  induction src using induction_get generalizing dest with
  | step src ih =>
    rw [copyInto_ok_iff_entries h, fits_iff_entries]
    refine forall_congr' fun m => and_congr_right fun _ => ?_
    exact forall_congr' fun es => forall_congr' fun h_get => ih m es h_get (h.get h_get)

theorem Distinct.copyInto (h_src : src.Distinct) (h_dest : dest.Distinct) :
    (src.copyInto dest).1.Distinct := by
  induction src generalizing dest with
  | empty => exact h_dest
  | file n a rest ih =>
    by_cases h_folder : ∃ g, dest.get n = some (.folder g)
    · obtain ⟨g, h_g⟩ := h_folder
      simpa only [Folder.copyInto, h_g] using h_dest
    · rw [copyInto_file (not_exists.mp h_folder)]
      exact ih h_src.2 (h_dest.put fun es h_es => by cases h_es)
  | folder n es rest ih_es ih =>
    by_cases h_file : ∃ b, dest.get n = some (.file b)
    · obtain ⟨b, h_b⟩ := h_file
      simpa only [Folder.copyInto, h_b] using h_dest
    · rw [copyInto_folder (not_exists.mp h_file)]
      have h_put : (dest.put n (.folder (es.copyInto (dest.entriesAt n)).1)).Distinct := by
        refine h_dest.put fun es' h_es => ?_
        cases h_es
        exact ih_es h_src.2.1 (distinct_entriesAt h_dest n)
      split
      · exact ih h_src.2.2 h_put
      · exact h_put

end CopyInto

/-! ## Working inside a folder of the tree -/

/-- The entries of the folder at a path, none where there is no folder. -/
def folderAt (f : Folder α) (p : Path) : Folder α :=
  match f.lookup p with
  | some (.folder g) => g
  | _ => empty

/-- Apply an operation that may fail midway to the folder at a path, made where it is
    missing. Where a file is in the way nothing is done. -/
def within (op : Folder α → Folder α × Bool) : Path → Folder α → Folder α × Bool
  | [], f => op f
  | n :: p, f =>
      match f.get n with
      | some (.file _) => (f, false)
      | _ =>
          let inner := within op p (f.entriesAt n)
          (f.put n (.folder inner.1), inner.2)

/-- No file is at the path or above it. -/
def Open (f : Folder α) (p : Path) : Prop :=
  ∀ q, q <+: p → f.fileAt q = none

section Within

attribute [local simp] folderAt within

variable {f : Folder α} {op : Folder α → Folder α × Bool} {n : String} {p q : Path}

theorem within_cons (h : ∀ b, f.get n ≠ some (.file b)) :
    within op (n :: p) f =
      (f.put n (.folder (within op p (f.entriesAt n)).1), (within op p (f.entriesAt n)).2) := by
  cases h_get : f.get n with
  | none => simp only [within, h_get]
  | some node =>
    cases node with
    | file b => exact absurd h_get (h b)
    | folder g => simp only [within, h_get]

theorem folderAt_cons (h : ∀ b, f.get n ≠ some (.file b)) :
    f.folderAt (n :: p) = (f.entriesAt n).folderAt p := by
  cases h_get : f.get n with
  | none =>
    simp only [folderAt, lookup, entriesAt, h_get]
    cases p <;> rfl
  | some node =>
    cases node with
    | file b => exact absurd h_get (h b)
    | folder g => simp only [folderAt, lookup, entriesAt, h_get]

theorem open_cons :
    Open f (n :: p) ↔ (∀ b, f.get n ≠ some (.file b)) ∧ Open (f.entriesAt n) p := by
  constructor
  · intro h
    have h_file : ∀ b, f.get n ≠ some (.file b) := by
      intro b h_get
      have h_none := h [n] (by simp)
      rw [fileAt_cons_file h_get] at h_none
      cases h_none
    refine ⟨h_file, fun q h_q => ?_⟩
    rw [← fileAt_cons h_file]
    exact h (n :: q) (List.prefix_cons_iff.mpr (.inr ⟨q, rfl, h_q⟩))
  · rintro ⟨h_file, h_open⟩ q h_q
    obtain rfl | ⟨r, rfl, h_r⟩ := List.prefix_cons_iff.mp h_q
    · rfl
    · rw [fileAt_cons h_file]
      exact h_open r h_r

theorem fileAt_append (h : Open f p) : f.fileAt (p ++ q) = (f.folderAt p).fileAt q := by
  induction p generalizing f with
  | nil => rfl
  | cons n p ih =>
    obtain ⟨h_file, h_open⟩ := open_cons.mp h
    rw [List.cons_append, fileAt_cons h_file, folderAt_cons h_file]
    exact ih h_open

/-- Away from the folder nothing changes. -/
theorem fileAt_within_frame (h : ¬ p <+: q) : (within op p f).1.fileAt q = f.fileAt q := by
  induction p generalizing f q with
  | nil => exact absurd List.nil_prefix h
  | cons n p ih =>
    by_cases h_file : ∃ b, f.get n = some (.file b)
    · obtain ⟨b, h_b⟩ := h_file
      simp only [within, h_b]
    · have h_no := not_exists.mp h_file
      rw [within_cons h_no]
      cases q with
      | nil => rfl
      | cons k q =>
        by_cases h_k : k = n
        · subst h_k
          rw [fileAt_cons_folder get_put_self, fileAt_cons h_no]
          exact ih fun h_pre => h (List.cons_prefix_cons.mpr ⟨rfl, h_pre⟩)
        · exact fileAt_congr (get_put_ne h_k)

/-- Away from the folder no folder appears or goes, the ones above it apart. -/
theorem isFolder_within_frame (h : ¬ p <+: q) (h_q : ¬ q <+: p) :
    (within op p f).1.isFolder q = f.isFolder q := by
  induction p generalizing f q with
  | nil => exact absurd List.nil_prefix h
  | cons n p ih =>
    by_cases h_file : ∃ b, f.get n = some (.file b)
    · obtain ⟨b, h_b⟩ := h_file
      simp only [within, h_b]
    · have h_no := not_exists.mp h_file
      rw [within_cons h_no]
      cases q with
      | nil => rfl
      | cons k q =>
        by_cases h_k : k = n
        · subst h_k
          have h_p : ¬ p <+: q := fun h_pre => h (List.cons_prefix_cons.mpr ⟨rfl, h_pre⟩)
          have h_q' : ¬ q <+: p := fun h_pre => h_q (List.cons_prefix_cons.mpr ⟨rfl, h_pre⟩)
          have h_ne : q ≠ [] := fun h_nil => h_q' (h_nil ▸ List.nil_prefix)
          rw [isFolder_cons_folder get_put_self, isFolder_cons h_no h_ne]
          exact ih h_p h_q'
        · exact isFolder_congr (get_put_ne h_k)

/-- In the folder the operation is done. -/
theorem fileAt_within (h : Open f p) :
    (within op p f).1.fileAt (p ++ q) = (op (f.folderAt p)).1.fileAt q := by
  induction p generalizing f with
  | nil => rfl
  | cons n p ih =>
    obtain ⟨h_file, h_open⟩ := open_cons.mp h
    rw [within_cons h_file, List.cons_append, fileAt_cons_folder get_put_self,
      folderAt_cons h_file]
    exact ih h_open

theorem within_ok (h : Open f p) : (within op p f).2 = (op (f.folderAt p)).2 := by
  induction p generalizing f with
  | nil => rfl
  | cons n p ih =>
    obtain ⟨h_file, h_open⟩ := open_cons.mp h
    rw [within_cons h_file, folderAt_cons h_file]
    exact ih h_open

theorem within_blocked (h : ¬ Open f p) : (within op p f).2 = false := by
  induction p generalizing f with
  | nil => exact absurd (fun q h_q => by rw [List.prefix_nil.mp h_q]; rfl) h
  | cons n p ih =>
    by_cases h_file : ∃ b, f.get n = some (.file b)
    · obtain ⟨b, h_b⟩ := h_file
      simp only [within, h_b]
    · have h_no := not_exists.mp h_file
      rw [within_cons h_no]
      exact ih fun h_open => h (open_cons.mpr ⟨h_no, h_open⟩)

/-- Where a file is in the way nothing changes. -/
theorem fileAt_within_blocked (h : ¬ Open f p) : (within op p f).1.fileAt q = f.fileAt q := by
  induction p generalizing f q with
  | nil => exact absurd (fun q h_q => by rw [List.prefix_nil.mp h_q]; rfl) h
  | cons n p ih =>
    by_cases h_file : ∃ b, f.get n = some (.file b)
    · obtain ⟨b, h_b⟩ := h_file
      simp only [within, h_b]
    · have h_no := not_exists.mp h_file
      rw [within_cons h_no]
      cases q with
      | nil => rfl
      | cons k q =>
        by_cases h_k : k = n
        · subst h_k
          rw [fileAt_cons_folder get_put_self, fileAt_cons h_no]
          exact ih fun h_open => h (open_cons.mpr ⟨h_no, h_open⟩)
        · exact fileAt_congr (get_put_ne h_k)

theorem Distinct.folderAt (h : f.Distinct) : (f.folderAt p).Distinct := by
  induction p generalizing f with
  | nil => exact h
  | cons n p ih =>
    by_cases h_file : ∃ b, f.get n = some (.file b)
    · obtain ⟨b, h_b⟩ := h_file
      by_cases h_p : p = []
      · simp [Folder.folderAt, lookup, h_b, h_p, Distinct]
      · simp [Folder.folderAt, lookup, h_b, h_p, Distinct]
    · rw [folderAt_cons (not_exists.mp h_file)]
      exact ih (distinct_entriesAt h n)

theorem Distinct.within (h : f.Distinct) (h_op : ∀ g : Folder α, g.Distinct → (op g).1.Distinct) :
    (within op p f).1.Distinct := by
  induction p generalizing f with
  | nil => exact h_op f h
  | cons n p ih =>
    by_cases h_file : ∃ b, f.get n = some (.file b)
    · obtain ⟨b, h_b⟩ := h_file
      simpa only [Folder.within, h_b] using h
    · rw [within_cons (not_exists.mp h_file)]
      refine h.put fun es h_es => ?_
      cases h_es
      exact ih (distinct_entriesAt h n)

end Within

end Folder

/-- A tree in which names tell entries apart. -/
structure SoundTree (α : Type u) where
  root : Folder α
  distinct : root.Distinct

end FileTree
