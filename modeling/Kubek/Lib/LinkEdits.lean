/-
  Kubek.Lib.LinkEdits

  The calls of an operating system that change one entry of a tree with links: `unlink`,
  `mkdir`, `rmdir` and `rename`.

  Each of them follows the links above the entry and leaves the entry itself unfollowed
  (`entryAt`). What a call changes is said by `DiffersAt`: nothing but its entries, and
  with a folder that is moved what is in it.
-/

import Kubek.Lib.LinkTree

namespace FileTree

universe u

namespace Folder

variable {α : Type u} (t : LinkTree α)

/-- The real folder that the entry of a path is in, and its name. -/
def entryAt (limit : Nat) (segments : List String) : Option (Path × String) :=
  match segments.getLast? with
  | none => none
  | some name =>
      match t.follow limit [] segments.dropLast with
      | .found dir => if t.isFolder dir then some (dir, name) else none
      | _ => none

/-- Take an entry out of the folder at a path. -/
def eraseAt (name : String) : Path → LinkTree α → LinkTree α
  | [], f => f.erase name
  | n :: dir, f => f.put n (.folder (eraseAt name dir (f.entriesAt n)))

/-- Remove a file or a link. -/
def unlink (limit : Nat) (segments : List String) : LinkTree α × Bool :=
  match t.entryAt limit segments with
  | none => (t, false)
  | some (dir, name) =>
      if (t.fileAt (dir ++ [name])).isSome then (t.eraseAt name dir, true) else (t, false)

/-- Make a folder where nothing is. -/
def mkdir (limit : Nat) (segments : List String) : LinkTree α × Bool :=
  match t.entryAt limit segments with
  | none => (t, false)
  | some (dir, name) =>
      if (t.lookup (dir ++ [name])).isNone then (t.putAt name (.folder .empty) dir, true)
      else (t, false)

/-- Remove a folder with nothing in it. -/
def rmdir (limit : Nat) (segments : List String) : LinkTree α × Bool :=
  match t.entryAt limit segments with
  | none => (t, false)
  | some (dir, name) =>
      match t.lookup (dir ++ [name]) with
      | some (.folder .empty) => (t.eraseAt name dir, true)
      | _ => (t, false)

/-- What may be at the new place of an entry: nothing, and for a folder one with nothing in
    it, for all else a file or a link. -/
def canReplace : Node (Leaf α) → Option (Node (Leaf α)) → Bool
  | _, none => true
  | .file _, some (.file _) => true
  | .folder _, some (.folder .empty) => true
  | _, _ => false

/-- Move an entry; what was in its new place is replaced. -/
def rename (limit : Nat) (source target : List String) : LinkTree α × Bool :=
  match t.entryAt limit source, t.entryAt limit target with
  | some (dir, name), some (dir', name') =>
      match t.lookup (dir ++ [name]) with
      | none => (t, false)
      | some node =>
          if dir ++ [name] = dir' ++ [name'] then (t, true)
          -- A folder does not go into itself.
          else if (dir ++ [name]).isPrefixOf (dir' ++ [name']) then (t, false)
          else if canReplace node (t.lookup (dir' ++ [name'])) then
            ((t.eraseAt name dir).putAt name' node dir', true)
          else (t, false)
  | _, _ => (t, false)

/-- The trees are not the same at the path. -/
def DiffersAt (t t' : LinkTree α) (q : Path) : Prop :=
  t'.fileAt q ≠ t.fileAt q ∨ t'.isFolder q ≠ t.isFolder q

/-! ## Erasing -/

section Erasing

variable {t} {dir q r : Path} {name : String} {node : Node (Leaf α)}

theorem not_differsAt_self (t : LinkTree α) (q : Path) : ¬ DiffersAt t t q := by
  rintro (h | h) <;> exact h rfl

theorem DiffersAt.of_lookup {t' : LinkTree α} (h : DiffersAt t t' q) : t'.lookup q ≠ t.lookup q := by
  intro h_eq
  obtain h | h := h
  · exact h (by rw [fileAt, fileAt, h_eq])
  · exact h (by rw [isFolder, isFolder, h_eq])

theorem lookup_cons_folder {f g : LinkTree α} {n : String} (h : f.get n = some (.folder g)) :
    f.lookup (n :: q) = g.lookup q := by
  rw [lookup, h]

theorem lookup_congr {f g : LinkTree α} {n : String} (h : f.get n = g.get n) :
    f.lookup (n :: q) = g.lookup (n :: q) := by
  rw [lookup, lookup, h]

/-- The entry and what is below it is gone, the rest is there. -/
theorem lookup_eraseAt (name : String) (h : t.isFolder dir = true) (h_q : q ≠ []) (h_up : ¬ q <+: dir) :
    (t.eraseAt name dir).lookup q = if dir ++ [name] <+: q then none else t.lookup q := by
  induction dir generalizing t q with
  | nil =>
    obtain ⟨k, q, rfl⟩ := List.exists_cons_of_ne_nil h_q
    rw [eraseAt, List.nil_append]
    by_cases h_k : k = name
    · subst h_k
      rw [if_pos ⟨q, rfl⟩, lookup, get_erase, if_pos rfl]
    · have h_not : ¬ [name] <+: k :: q := fun h => h_k (List.cons_prefix_cons.mp h).1.symm
      rw [if_neg h_not]
      exact lookup_congr (by rw [get_erase, if_neg h_k])
  | cons n dir ih =>
    obtain ⟨k, q, rfl⟩ := List.exists_cons_of_ne_nil h_q
    obtain ⟨g, h_get, h_g⟩ := exists_of_isFolder_cons h
    have h_below : eraseAt name (n :: dir) t = t.put n (.folder (eraseAt name dir g)) := by
      simp only [eraseAt, entriesAt, h_get]
    rw [h_below]
    by_cases h_k : k = n
    · subst h_k
      rw [lookup_cons_folder get_put_self, lookup_cons_folder h_get, List.cons_append]
      simp only [List.cons_prefix_cons, true_and] at h_up ⊢
      obtain rfl | h_ne := eq_or_ne q []
      · exact absurd List.nil_prefix h_up
      · exact ih h_g h_ne h_up
    · have h_not : ¬ n :: dir ++ [name] <+: k :: q := fun h =>
        h_k (List.cons_prefix_cons.mp h).1.symm
      rw [if_neg h_not]
      exact lookup_congr (get_put_ne h_k)

/-- A folder above the entry stays a folder. -/
theorem isFolder_eraseAt_up (name : String) (h : t.isFolder dir = true) (h_q : q <+: dir) :
    (t.eraseAt name dir).isFolder q = true := by
  induction dir generalizing t q with
  | nil =>
    rw [List.prefix_nil.mp h_q]
    rfl
  | cons n dir ih =>
    obtain ⟨g, h_get, h_g⟩ := exists_of_isFolder_cons h
    cases q with
    | nil => rfl
    | cons k q =>
      obtain ⟨rfl, h_rest⟩ := List.cons_prefix_cons.mp h_q
      have h_below : eraseAt name (k :: dir) t = t.put k (.folder (eraseAt name dir g)) := by
        simp only [eraseAt, entriesAt, h_get]
      rw [h_below, isFolder_cons_folder get_put_self]
      exact ih h_g h_rest

theorem isFolder_of_pre {p : Path} (h : t.isFolder p = true) (h_q : q <+: p) :
    t.isFolder q = true := by
  obtain ⟨rest, rfl⟩ := h_q
  cases rest with
  | nil => simpa using h
  | cons n rest => exact isFolder_of_append (lookup_isSome_of_isFolder h) (List.cons_ne_nil _ _)

/-- Erasing changes nothing but the entry and what is below it. -/
theorem alikeOutside_eraseAt (name : String) (h : t.isFolder dir = true) :
    AlikeOutside (dir ++ [name]) t (t.eraseAt name dir) := by
  intro q h_q
  by_cases h_up : q <+: dir
  · have h_old := isFolder_of_pre h h_up
    have h_new := isFolder_eraseAt_up name h h_up
    refine ⟨?_, h_new.trans h_old.symm⟩
    have h_none : ∀ {f : LinkTree α}, f.isFolder q = true → f.fileAt q = none := by
      intro f h_f
      by_contra h_some
      obtain ⟨a, h_a⟩ := Option.ne_none_iff_exists'.mp h_some
      rw [not_isFolder_of_fileAt h_a] at h_f
      cases h_f
    rw [h_none h_new, h_none h_old]
  · have h_ne : q ≠ [] := fun h_nil => h_up (h_nil ▸ List.nil_prefix)
    have h_eq := lookup_eraseAt name h h_ne h_up
    rw [if_neg h_q] at h_eq
    exact ⟨by rw [fileAt, fileAt, h_eq], by rw [isFolder, isFolder, h_eq]⟩

theorem lookup_eraseAt_below (h : t.isFolder dir = true) (h_q : dir ++ [name] <+: q) :
    (t.eraseAt name dir).lookup q = none := by
  have h_long := h_q.length_le
  rw [List.length_append, List.length_singleton] at h_long
  have h_up : ¬ q <+: dir := fun h_pre => by
    have h_short := h_pre.length_le
    omega
  have h_ne : q ≠ [] := fun h_nil => h_up (h_nil ▸ List.nil_prefix)
  rw [lookup_eraseAt name h h_ne h_up, if_pos h_q]

/-- Putting a file or a folder with nothing in it: there is nothing below it. -/
theorem lookup_putAt_below (h : t.isFolder dir = true)
    (h_node : (∃ a, node = .file a) ∨ node = .folder .empty) (h_r : r ≠ []) :
    (putAt name node dir t).lookup (dir ++ name :: r) = none := by
  induction dir generalizing t with
  | nil =>
    rw [putAt, List.nil_append, lookup, get_put_self]
    obtain ⟨a, rfl⟩ | rfl := h_node
    · exact if_neg h_r
    · obtain ⟨k, r, rfl⟩ := List.exists_cons_of_ne_nil h_r
      rfl
  | cons n dir ih =>
    obtain ⟨g, h_get, h_g⟩ := exists_of_isFolder_cons h
    rw [putAt_cons h_get, List.cons_append, lookup_cons_folder get_put_self]
    exact ih h_g

end Erasing

/-! ## What each call changes -/

section Calls

variable {t} {t' : LinkTree α} {limit : Nat} {segments source target : List String}
  {dir dir' e q : Path} {name name' : String}

theorem isFolder_of_entryAt (h : t.entryAt limit segments = some (dir, name)) :
    t.isFolder dir = true := by
  rw [entryAt] at h
  split at h
  · cases h
  · split at h
    · obtain ⟨h_dir, h⟩ := Option.ite_none_right_eq_some.mp h
      cases h
      exact h_dir
    · cases h

/-- There is nothing below a path: a file, a link, a folder without entries, or nothing. -/
def Bottom (t : LinkTree α) (e : Path) : Prop := ∀ r, r ≠ [] → t.lookup (e ++ r) = none

theorem bottom_of_fileAt {a : Leaf α} (h : t.fileAt e = some a) : Bottom t e := by
  intro r h_r
  apply lookup_append_file _ h_r
  · exact a
  · rw [fileAt] at h
    split at h
    · rename_i b h_lookup
      rw [h_lookup, Option.some.inj h]
    · cases h

theorem bottom_of_none (h : t.lookup e = none) : Bottom t e := by
  intro r h_r
  by_contra h_some
  have h_folder := isFolder_of_append (Option.isSome_iff_ne_none.mpr h_some) h_r
  rw [isFolder, h] at h_folder
  cases h_folder

theorem bottom_of_empty (h : t.lookup e = some (.folder .empty)) : Bottom t e := by
  intro r h_r
  obtain ⟨k, r, rfl⟩ := List.exists_cons_of_ne_nil h_r
  rw [lookup_append_folder _ h]
  rfl

/-- Where there is nothing below the entry before and after, all changes are at it. -/
theorem eq_of_differsAt (h_alike : AlikeOutside e t t') (h_old : Bottom t e) (h_new : Bottom t' e)
    (h : DiffersAt t t' q) : q = e := by
  have h_pre : e <+: q := by
    by_contra h_not
    obtain ⟨h_file, h_folder⟩ := h_alike q h_not
    exact h.elim (fun h => h h_file) fun h => h h_folder
  obtain ⟨r, rfl⟩ := h_pre
  by_cases h_r : r = []
  · rw [h_r, List.append_nil]
  · exact absurd ((h_new r h_r).trans (h_old r h_r).symm) h.of_lookup

theorem bottom_eraseAt (name : String) (h : t.isFolder dir = true) :
    Bottom (t.eraseAt name dir) (dir ++ [name]) :=
  fun _ _ => lookup_eraseAt_below h (List.prefix_append _ _)

theorem bottom_putAt (name : String) {node : Node (Leaf α)} (h : t.isFolder dir = true)
    (h_node : (∃ a, node = .file a) ∨ node = .folder .empty) :
    Bottom (putAt name node dir t) (dir ++ [name]) := by
  intro r h_r
  rw [List.append_assoc]
  exact lookup_putAt_below h h_node h_r

/-- A removed file or link is all that changes. -/
theorem unlink_changes (t : LinkTree α) (limit : Nat) (segments : List String) :
    (t.unlink limit segments).1 = t ∨
      ∃ dir name, t.entryAt limit segments = some (dir, name) ∧
        ∀ q, DiffersAt t (t.unlink limit segments).1 q → q = dir ++ [name] := by
  rw [unlink]
  split
  · exact .inl rfl
  · rename_i dir name h_entry
    split
    · rename_i h_some
      obtain ⟨a, h_a⟩ := Option.isSome_iff_exists.mp h_some
      have h_dir := isFolder_of_entryAt h_entry
      exact .inr ⟨dir, name, h_entry, fun q h_q => eq_of_differsAt (alikeOutside_eraseAt name h_dir)
        (bottom_of_fileAt h_a) (bottom_eraseAt name h_dir) h_q⟩
    · exact .inl rfl

/-- A new folder is all that changes. -/
theorem mkdir_changes (t : LinkTree α) (limit : Nat) (segments : List String) :
    (t.mkdir limit segments).1 = t ∨
      ∃ dir name, t.entryAt limit segments = some (dir, name) ∧ t.lookup (dir ++ [name]) = none ∧
        ∀ q, DiffersAt t (t.mkdir limit segments).1 q → q = dir ++ [name] := by
  rw [mkdir]
  split
  · exact .inl rfl
  · rename_i dir name h_entry
    split
    · rename_i h_none
      have h_free := Option.isNone_iff_eq_none.mp h_none
      have h_dir := isFolder_of_entryAt h_entry
      exact .inr ⟨dir, name, h_entry, h_free, fun q h_q =>
        eq_of_differsAt (alikeOutside_putAt name _ h_dir) (bottom_of_none h_free)
          (bottom_putAt name h_dir (.inr rfl)) h_q⟩
    · exact .inl rfl

/-- A removed folder is all that changes. -/
theorem rmdir_changes (t : LinkTree α) (limit : Nat) (segments : List String) :
    (t.rmdir limit segments).1 = t ∨
      ∃ dir name, t.entryAt limit segments = some (dir, name) ∧
        t.isFolder (dir ++ [name]) = true ∧
        ∀ q, DiffersAt t (t.rmdir limit segments).1 q → q = dir ++ [name] := by
  rw [rmdir]
  split
  · exact .inl rfl
  · rename_i dir name h_entry
    split
    · rename_i h_empty
      have h_dir := isFolder_of_entryAt h_entry
      refine .inr ⟨dir, name, h_entry, by rw [isFolder, h_empty], fun q h_q => ?_⟩
      exact eq_of_differsAt (alikeOutside_eraseAt name h_dir) (bottom_of_empty h_empty)
        (bottom_eraseAt name h_dir) h_q
    · exact .inl rfl

/-- A moved file or link changes its old and its new place; with a folder goes what is in it,
    and in its new place was no file and no link. -/
theorem rename_changes (t : LinkTree α) (limit : Nat) (source target : List String) :
    (t.rename limit source target).1 = t ∨
      ∃ dir name dir' name', t.entryAt limit source = some (dir, name) ∧
        t.entryAt limit target = some (dir', name') ∧
        ∀ q, DiffersAt t (t.rename limit source target).1 q →
          q = dir ++ [name] ∨ q = dir' ++ [name'] ∨
            t.fileAt (dir ++ [name]) = none ∧ t.fileAt (dir' ++ [name']) = none ∧
              (dir ++ [name] <+: q ∨ dir' ++ [name'] <+: q) := by
  rw [rename]
  split
  · rename_i dir name dir' name' h_source h_target
    split
    · exact .inl rfl
    · rename_i node h_node
      split
      · exact .inl rfl
      · rename_i h_ne
        split
        · exact .inl rfl
        · rename_i h_pre
          rw [List.isPrefixOf_iff_prefix] at h_pre
          split
          · rename_i h_replace
            refine .inr ⟨dir, name, dir', name', h_source, h_target, fun q h_q => ?_⟩
            have h_dir := isFolder_of_entryAt h_source
            have h_alike := alikeOutside_eraseAt name h_dir
            -- the new folder is not inside what is moved
            have h_dir' : (t.eraseAt name dir).isFolder dir' = true := by
              rw [(h_alike dir' fun h => h_pre (h.trans (List.prefix_append _ _))).2]
              exact isFolder_of_entryAt h_target
            have h_put := alikeOutside_putAt name' node h_dir'
            have h_place : dir ++ [name] <+: q ∨ dir' ++ [name'] <+: q := by
              by_contra h_out
              obtain ⟨h_out, h_out'⟩ := not_or.mp h_out
              obtain ⟨h_file, h_folder⟩ := h_put q h_out'
              obtain ⟨h_file', h_folder'⟩ := h_alike q h_out
              exact h_q.elim (fun h => h (h_file.trans h_file')) fun h => h (h_folder.trans h_folder')
            cases node with
            | folder g =>
              refine .inr (.inr ⟨by rw [fileAt, h_node], ?_, h_place⟩)
              rw [fileAt]
              split
              · rename_i a h_leaf
                rw [h_leaf] at h_replace
                cases h_replace
              · rfl
            | file a =>
              have h_leaf : t.fileAt (dir ++ [name]) = some a := by rw [fileAt, h_node]
              by_cases h_to : dir' ++ [name'] <+: q
              · -- nothing is below the new place, before or after
                refine .inr (.inl ?_)
                have h_old : Bottom t (dir' ++ [name']) := by
                  cases h_at : t.lookup (dir' ++ [name']) with
                  | none => exact bottom_of_none h_at
                  | some old =>
                    rw [h_at] at h_replace
                    cases old with
                    | file b => exact bottom_of_fileAt (a := b) (by rw [fileAt, h_at])
                    | folder g => simp [canReplace] at h_replace
                obtain ⟨r, rfl⟩ := h_to
                by_cases h_r : r = []
                · rw [h_r, List.append_nil]
                · have h_new := bottom_putAt name' h_dir' (.inl ⟨a, rfl⟩) r h_r
                  exact absurd (h_new.trans (h_old r h_r).symm) h_q.of_lookup
              · obtain ⟨r, rfl⟩ := h_place.resolve_right h_to
                by_cases h_r : r = []
                · exact .inl (by rw [h_r, List.append_nil])
                · obtain ⟨h_file, h_folder⟩ := h_put _ h_to
                  have h_gone := bottom_eraseAt name h_dir r h_r
                  have h_none := bottom_of_fileAt h_leaf r h_r
                  refine absurd h_q ?_
                  rintro (h | h)
                  · exact h (h_file.trans (by rw [fileAt, fileAt, h_gone, h_none]))
                  · exact h (h_folder.trans (by rw [isFolder, isFolder, h_gone, h_none]))
          · exact .inl rfl
  · exact .inl rfl

end Calls

end Folder

end FileTree
