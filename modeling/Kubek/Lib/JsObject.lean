/-
  Kubek.Lib.JsObject

  Plain objects used as maps: entries in insertion order, one for each key; and the
  array without repetitions that `[...new Set(xs)]` makes.

  `set` writes in place when the key is there and appends when it is not, so
  `Object.entries` of a merge lists the keys in the order they first came up. Lookups
  (`get`) are characterised for every operation; nothing else about the order is used.
-/

import Mathlib.Data.List.Nodup
import Mathlib.Data.List.Dedup

namespace JsMap

universe u v

/-- Entries with distinct keys. -/
structure JsObject (K : Type u) (V : Type v) where
  entries : List (K × V)
  nodup : (entries.map Prod.fst).Nodup
  deriving DecidableEq

variable {K : Type u} {V : Type v} [DecidableEq K]

/-- Assign on the bare entries. -/
def setEntries : List (K × V) → K → V → List (K × V)
  | [], k, v => [(k, v)]
  | e :: es, k, v => if e.1 = k then (k, v) :: es else e :: setEntries es k v

attribute [local simp] setEntries in
theorem mem_keys_setEntries (es : List (K × V)) (k k' : K) (v : V) :
    k' ∈ (setEntries es k v).map Prod.fst ↔ k' = k ∨ k' ∈ es.map Prod.fst := by
  induction es with
  | nil => simp [setEntries]
  | cons e es ih =>
    by_cases h : e.1 = k
    · subst h
      simp [setEntries]
    · simp only [setEntries, h, if_false, List.map_cons, List.mem_cons, ih]
      constructor
      · rintro (h1 | h1 | h1) <;> simp [h1]
      · rintro (h1 | h1 | h1) <;> simp [h1]

theorem nodup_setEntries {es : List (K × V)} (h : (es.map Prod.fst).Nodup) (k : K) (v : V) :
    ((setEntries es k v).map Prod.fst).Nodup := by
  induction es with
  | nil => simp [setEntries]
  | cons e es ih =>
    obtain ⟨h_head, h_tail⟩ := List.nodup_cons.mp h
    by_cases hk : e.1 = k
    · subst hk
      simpa [setEntries] using h
    · simp only [setEntries, hk, if_false, List.map_cons]
      refine List.nodup_cons.mpr ⟨?_, ih h_tail⟩
      rw [mem_keys_setEntries]
      rintro (h_eq | h_mem)
      · exact hk h_eq
      · exact h_head h_mem

/-- `List.lookup` on a pair, with a decidable equation for the key. -/
theorem lookup_cons_eq (e : K × V) (es : List (K × V)) (k : K) :
    (e :: es).lookup k = if k = e.1 then some e.2 else es.lookup k := by
  obtain ⟨k', v⟩ := e
  by_cases h : k = k'
  · subst h
    rw [List.lookup_cons_self, if_pos rfl]
  · have h_beq : (k == k') = false := by simpa using h
    rw [if_neg h, List.lookup_cons, h_beq]

theorem lookup_setEntries (es : List (K × V)) (k k' : K) (v : V) :
    (setEntries es k v).lookup k' = if k' = k then some v else es.lookup k' := by
  induction es with
  | nil => rw [setEntries, lookup_cons_eq]
  | cons e es ih =>
    by_cases he : e.1 = k
    · subst he
      rw [setEntries, if_pos rfl, lookup_cons_eq, lookup_cons_eq]
      split <;> rfl
    · rw [setEntries, if_neg he, lookup_cons_eq, lookup_cons_eq, ih]
      by_cases h : k' = e.1
      · subst h
        rw [if_pos rfl, if_neg he, if_pos rfl]
      · rw [if_neg h, if_neg h]

theorem lookup_eq_some_of_mem {es : List (K × V)} (h : (es.map Prod.fst).Nodup) {k : K} {v : V}
    (h_mem : (k, v) ∈ es) : es.lookup k = some v := by
  induction es with
  | nil => cases h_mem
  | cons e es ih =>
    obtain ⟨h_head, h_tail⟩ := List.nodup_cons.mp h
    rw [lookup_cons_eq]
    rcases List.mem_cons.mp h_mem with rfl | h_mem
    · rw [if_pos rfl]
    · have h_ne : k ≠ e.1 := by
        rintro rfl
        exact h_head (List.mem_map.mpr ⟨_, h_mem, rfl⟩)
      rw [if_neg h_ne]
      exact ih h_tail h_mem

theorem mem_of_lookup_eq_some {es : List (K × V)} {k : K} {v : V}
    (h : es.lookup k = some v) : (k, v) ∈ es := by
  induction es with
  | nil => cases h
  | cons e es ih =>
    rw [lookup_cons_eq] at h
    split at h
    · rename_i hk
      cases h
      rw [hk]
      exact List.mem_cons_self
    · exact List.mem_cons_of_mem _ (ih h)

namespace JsObject

/-- `{}`. -/
def empty : JsObject K V := ⟨[], by simp⟩

/-- `m[k]`. -/
def get (m : JsObject K V) (k : K) : Option V := m.entries.lookup k

/-- `m[k] = v`. -/
def set (m : JsObject K V) (k : K) (v : V) : JsObject K V :=
  ⟨setEntries m.entries k v, nodup_setEntries m.nodup k v⟩

/-- The entries that satisfy `p`, in order. -/
def filter (m : JsObject K V) (p : K × V → Bool) : JsObject K V :=
  ⟨m.entries.filter p, (m.nodup.sublist (List.filter_sublist.map Prod.fst))⟩

@[simp] theorem get_empty (k : K) : (empty : JsObject K V).get k = none := rfl

@[simp] theorem get_set (m : JsObject K V) (k k' : K) (v : V) :
    (m.set k v).get k' = if k' = k then some v else m.get k' :=
  lookup_setEntries m.entries k k' v

theorem get_eq_some_iff (m : JsObject K V) (k : K) (v : V) :
    m.get k = some v ↔ (k, v) ∈ m.entries :=
  ⟨mem_of_lookup_eq_some, lookup_eq_some_of_mem m.nodup⟩

theorem get_filter_eq_some_iff (m : JsObject K V) (p : K × V → Bool) (k : K) (v : V) :
    (m.filter p).get k = some v ↔ m.get k = some v ∧ p (k, v) = true := by
  rw [get_eq_some_iff, get_eq_some_iff, filter, List.mem_filter]

theorem get_filter_ne (m : JsObject K V) {k k' : K} (h : k' ≠ k) :
    (m.filter fun entry => entry.1 ≠ k).get k' = m.get k' := by
  refine Option.ext fun v => ?_
  rw [get_filter_eq_some_iff]
  exact ⟨fun h_v => h_v.1, fun h_v => ⟨h_v, decide_eq_true h⟩⟩

/-- Every value goes through `f`. -/
def map {W : Type v} (m : JsObject K V) (f : V → W) : JsObject K W :=
  ⟨m.entries.map fun entry => (entry.1, f entry.2), by
    rw [List.map_map]
    exact m.nodup⟩

@[simp] theorem get_map {W : Type v} (m : JsObject K V) (f : V → W) (k : K) :
    (m.map f).get k = (m.get k).map f := by
  obtain ⟨es, h_nodup⟩ := m
  show (es.map fun entry => (entry.1, f entry.2)).lookup k = (es.lookup k).map f
  clear h_nodup
  induction es with
  | nil => rfl
  | cons e es ih =>
    rw [List.map_cons, lookup_cons_eq, lookup_cons_eq, ih]
    by_cases h : k = e.1
    · rw [if_pos h, if_pos h]
      rfl
    · rw [if_neg h, if_neg h]

/-- `{ ...base, ...m }`. -/
def spread (base m : JsObject K V) : JsObject K V :=
  m.entries.foldl (fun acc entry => acc.set entry.1 entry.2) base

theorem get_foldl_set {es : List (K × V)} (h : (es.map Prod.fst).Nodup) (base : JsObject K V)
    (k : K) : (es.foldl (fun acc entry => acc.set entry.1 entry.2) base).get k =
      (es.lookup k).or (base.get k) := by
  induction es generalizing base with
  | nil => rfl
  | cons e es ih =>
    obtain ⟨h_fresh, h_nodup⟩ := List.nodup_cons.mp h
    rw [List.foldl_cons, ih h_nodup, get_set, lookup_cons_eq]
    by_cases h_key : k = e.1
    · -- the key does not come up again
      have h_none : es.lookup k = none := by
        cases h_v : es.lookup k with
        | none => rfl
        | some v => exact absurd (List.mem_map_of_mem (mem_of_lookup_eq_some h_v)) (h_key ▸ h_fresh)
      rw [if_pos h_key, if_pos h_key, h_none]
      rfl
    · rw [if_neg h_key, if_neg h_key]

@[simp] theorem get_spread (base m : JsObject K V) (k : K) :
    (base.spread m).get k = (m.get k).or (base.get k) :=
  get_foldl_set m.nodup base k

end JsObject

/-! ## Sets -/

/-- `[...new Set(xs)]`: the first occurrence of each element. -/
def unique {α : Type u} [DecidableEq α] : List α → List α
  | [] => []
  | x :: xs => x :: (unique xs).filter (· ≠ x)

@[simp] theorem mem_unique {α : Type u} [DecidableEq α] {x : α} {xs : List α} :
    x ∈ unique xs ↔ x ∈ xs := by
  induction xs with
  | nil => rfl
  | cons y ys ih =>
    simp only [unique, List.mem_cons, List.mem_filter, ih, decide_not, Bool.not_eq_true',
      decide_eq_false_iff_not]
    by_cases h : x = y <;> simp [h]

theorem nodup_unique {α : Type u} [DecidableEq α] (xs : List α) : (unique xs).Nodup := by
  induction xs with
  | nil => exact List.nodup_nil
  | cons y ys ih =>
    rw [unique, List.nodup_cons]
    refine ⟨?_, ih.filter _⟩
    simp

end JsMap
