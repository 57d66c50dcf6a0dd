/-
  Kubek.Lib.TreeFiles

  All files of a tree with their paths, each once where names tell entries apart.
-/

import Mathlib.Data.List.Nodup
import Kubek.Lib.FileTree

namespace FileTree

universe u

namespace Folder

variable {α : Type u}

/-- The files of a tree in the order of a walk, with their paths from its root. -/
def files : Folder α → List (Path × α)
  | empty => []
  | file n a rest => ([n], a) :: rest.files
  | folder n es rest => (es.files.map fun x => (n :: x.1, x.2)) ++ rest.files

/-- Every name in the tree satisfies `q`. -/
def Named (q : String → Prop) : Folder α → Prop
  | empty => True
  | file n _ rest => q n ∧ rest.Named q
  | folder n es rest => q n ∧ es.Named q ∧ rest.Named q

section Files

variable {f g : Folder α} {n : String} {p : Path} {a : α} {q : String → Prop}

/-- A file has one of the names of the entries first. -/
theorem head_of_mem_files (h : (p, a) ∈ f.files) : ∃ n r, p = n :: r ∧ n ∈ f.names := by
  induction f with
  | empty => cases h
  | file n b rest ih =>
    obtain h_eq | h := List.mem_cons.mp h
    · cases h_eq
      exact ⟨n, [], rfl, List.mem_cons_self⟩
    · obtain ⟨m, r, h_p, h_m⟩ := ih h
      exact ⟨m, r, h_p, List.mem_cons_of_mem _ h_m⟩
  | folder n es rest _ ih =>
    obtain h | h := List.mem_append.mp h
    · obtain ⟨x, -, h_eq⟩ := List.mem_map.mp h
      cases h_eq
      exact ⟨n, x.1, rfl, List.mem_cons_self⟩
    · obtain ⟨m, r, h_p, h_m⟩ := ih h
      exact ⟨m, r, h_p, List.mem_cons_of_mem _ h_m⟩

theorem mem_files (h : f.Distinct) : (p, a) ∈ f.files ↔ f.fileAt p = some a := by
  induction f generalizing p with
  | empty =>
    refine ⟨fun h_mem => (by cases h_mem), fun h_at => ?_⟩
    cases p with
    | nil => cases h_at
    | cons n p => cases h_at
  | file n b rest ih =>
    rw [files, List.mem_cons, ih h.2, fileAt_file h.1, Prod.mk.injEq, eq_comm (a := a)]
  | folder n es rest ih_es ih =>
    rw [files, List.mem_append, ih h.2.2, fileAt_folder h.1, List.mem_map]
    refine or_congr_left ⟨fun ⟨x, h_x, h_eq⟩ => ?_, fun ⟨r, h_p, h_r⟩ => ?_⟩
    · cases h_eq
      exact ⟨x.1, rfl, (ih_es h.2.1).mp h_x⟩
    · exact ⟨(r, a), (ih_es h.2.1).mpr h_r, by rw [h_p]⟩

theorem nodup_files (h : f.Distinct) : (f.files.map Prod.fst).Nodup := by
  induction f with
  | empty => exact List.nodup_nil
  | file n b rest ih =>
    rw [files, List.map_cons, List.nodup_cons]
    refine ⟨fun h_mem => ?_, ih h.2⟩
    obtain ⟨⟨p, c⟩, h_p, h_eq⟩ := List.mem_map.mp h_mem
    obtain ⟨m, r, rfl, h_m⟩ := head_of_mem_files h_p
    cases h_eq
    exact h.1 h_m
  | folder n es rest ih_es ih =>
    rw [files, List.map_append, List.nodup_append, List.map_map]
    refine ⟨?_, ih h.2.2, fun p h_p p' h_p' => ?_⟩
    · have h_cons : (Prod.fst ∘ fun x : Path × α => (n :: x.1, x.2)) = (n :: ·) ∘ Prod.fst := rfl
      rw [h_cons, ← List.map_map]
      exact (ih_es h.2.1).map List.cons_injective
    · rintro rfl
      obtain ⟨x, -, rfl⟩ := List.mem_map.mp h_p
      obtain ⟨⟨p, c⟩, h_p, h_eq⟩ := List.mem_map.mp h_p'
      obtain ⟨m, r, rfl, h_m⟩ := head_of_mem_files h_p
      cases h_eq
      exact h.1 h_m

theorem Named.of_mem_files (h : f.Named q) (h_mem : (p, a) ∈ f.files) : ∀ n ∈ p, q n := by
  induction f generalizing p with
  | empty => cases h_mem
  | file n b rest ih =>
    obtain h_eq | h_mem := List.mem_cons.mp h_mem
    · cases h_eq
      intro m h_m
      rw [List.mem_singleton.mp h_m]
      exact h.1
    · exact ih h.2 h_mem
  | folder n es rest ih_es ih =>
    obtain h_mem | h_mem := List.mem_append.mp h_mem
    · obtain ⟨x, h_x, h_eq⟩ := List.mem_map.mp h_mem
      cases h_eq
      intro m h_m
      obtain rfl | h_m := List.mem_cons.mp h_m
      · exact h.1
      · exact ih_es h.2.1 h_x m h_m
    · exact ih h.2.2 h_mem

theorem Named.get (h : f.Named q) {es : Folder α} (h_get : f.get n = some (.folder es)) :
    es.Named q := by
  induction f with
  | empty => cases h_get
  | file m b rest ih =>
    simp only [Folder.get] at h_get
    split at h_get
    · cases h_get
    · exact ih h.2 h_get
  | folder m es' rest _ ih =>
    simp only [Folder.get] at h_get
    split at h_get
    · cases h_get
      exact h.2.1
    · exact ih h.2.2 h_get

/-- What every folder of the tree inherits from the root. -/
theorem lookup_folder {P : Folder α → Prop}
    (h_get : ∀ f n es, P f → f.get n = some (.folder es) → P es) (h : P f)
    (h_lookup : f.lookup p = some (.folder g)) : P g := by
  induction p generalizing f with
  | nil =>
    cases h_lookup
    exact h
  | cons n p ih =>
    rw [lookup] at h_lookup
    split at h_lookup
    · cases h_lookup
    · split at h_lookup
      · cases h_lookup
      · cases h_lookup
    · rename_i es h_es
      exact ih (h_get f n es h h_es) h_lookup

theorem Named.lookup (h : f.Named q) (h_lookup : f.lookup p = some (.folder g)) : g.Named q :=
  lookup_folder (P := Named q) (fun _ _ _ h_f h_es => h_f.get h_es) h h_lookup

theorem Distinct.lookup (h : f.Distinct) (h_lookup : f.lookup p = some (.folder g)) : g.Distinct :=
  lookup_folder (P := Distinct) (fun _ _ _ h_f h_es => h_f.get h_es) h h_lookup

end Files

end Folder

end FileTree
