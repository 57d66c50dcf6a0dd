/-
  Kubek.Lib.LeaseTable

  Exclusive leases on the keys of a table, over arbitrary keys and values.

  A key is held with at most one value. `acquire` takes a free key and hands out the
  index of a new lease; `release` gives the key back, once: a lease that was released
  before does nothing. The table carries its own invariant, so every table is one in
  which a key is held exactly by its one open lease.
-/

import Mathlib.Logic.Function.Basic
import Mathlib.Data.List.Basic

namespace Leases

universe u v

/-- A lease handed out by `acquire`. -/
structure Lease (K : Type u) (V : Type v) where
  key : K
  value : V
  released : Bool

/-- The keys held and every lease handed out so far. -/
structure LeaseTable (K : Type u) (V : Type v) where
  held : K → Option V
  leases : List (Lease K V)
  /-- A key is held with the value of an open lease, and by nothing else. -/
  held_iff : ∀ k v, held k = some v ↔ ∃ i : Nat, leases[i]? = some ⟨k, v, false⟩
  /-- No two open leases on one key. -/
  unique : ∀ (i j : Nat) k v w, leases[i]? = some ⟨k, v, false⟩ →
    leases[j]? = some ⟨k, w, false⟩ → i = j

namespace LeaseTable

variable {K : Type u} {V : Type v}

/-- Nothing is held. -/
def empty : LeaseTable K V where
  held _ := none
  leases := []
  held_iff := by simp
  unique := by simp

/-- The lease `i` is open on `k` with `v`. -/
def IsOpen (t : LeaseTable K V) (i : Nat) (k : K) (v : V) : Prop :=
  t.leases[i]? = some ⟨k, v, false⟩

theorem IsOpen.held {t : LeaseTable K V} {i : Nat} {k : K} {v : V} (h : t.IsOpen i k v) :
    t.held k = some v :=
  (t.held_iff k v).mpr ⟨i, h⟩

theorem not_isOpen_empty (i : Nat) (k : K) (v : V) : ¬ (empty : LeaseTable K V).IsOpen i k v := by
  simp [IsOpen, empty]

variable [DecidableEq K]

/-- A lease on the free key `k` joins the table. -/
def grant (t : LeaseTable K V) (k : K) (v : V) (h : t.held k = none) : LeaseTable K V where
  held := Function.update t.held k (some v)
  leases := t.leases ++ [⟨k, v, false⟩]
  held_iff k' v' := by
    have h_free : ∀ (i : Nat) w, t.leases[i]? ≠ some ⟨k, w, false⟩ := by
      intro i w hi
      rw [(t.held_iff k w).mpr ⟨i, hi⟩] at h
      cases h
    by_cases hk : k' = k
    · subst hk
      rw [Function.update_self]
      constructor
      · rintro ⟨⟩
        exact ⟨t.leases.length, by simp⟩
      · rintro ⟨i, hi⟩
        rw [List.getElem?_append] at hi
        split at hi
        · exact absurd hi (h_free i v')
        · have h_lease := List.mem_of_getElem? hi
          simp only [List.mem_singleton, Lease.mk.injEq] at h_lease
          rw [h_lease.2.1]
    · rw [Function.update_of_ne hk, t.held_iff]
      refine exists_congr fun i => ?_
      rw [List.getElem?_append]
      split
      · rfl
      · rename_i h_ge
        rw [List.getElem?_eq_none (Nat.le_of_not_lt h_ge)]
        refine iff_of_false (by simp) fun hi => hk ?_
        have h_lease := List.mem_of_getElem? hi
        simp only [List.mem_singleton, Lease.mk.injEq] at h_lease
        exact h_lease.1
  unique i j k' v' w' hi hj := by
    have h_free : ∀ (i : Nat) w, t.leases[i]? ≠ some ⟨k, w, false⟩ := by
      intro i w hi
      rw [(t.held_iff k w).mpr ⟨i, hi⟩] at h
      cases h
    have h_last : ∀ (i : Nat) v', (t.leases ++ [⟨k, v, false⟩])[i]? = some ⟨k', v', false⟩ →
        t.leases[i]? = some ⟨k', v', false⟩ ∨ (k' = k ∧ i = t.leases.length) := by
      intro i v' hi
      rw [List.getElem?_append] at hi
      split at hi
      · exact .inl hi
      · have h_lease := List.mem_of_getElem? hi
        have h_lt := (List.getElem?_eq_some_iff.mp hi).1
        simp only [List.mem_singleton, Lease.mk.injEq] at h_lease
        simp only [List.length_singleton] at h_lt
        exact .inr ⟨h_lease.1, by omega⟩
    obtain hi' | ⟨rfl, rfl⟩ := h_last i v' hi
    · obtain hj' | ⟨rfl, rfl⟩ := h_last j w' hj
      · exact t.unique i j k' v' w' hi' hj'
      · exact absurd hi' (h_free i v')
    · obtain hj' | ⟨-, rfl⟩ := h_last j w' hj
      · exact absurd hj' (h_free j w')
      · rfl

/-- Take `k` with the value `v`, if nobody holds it; the number is the new lease. -/
def acquire (t : LeaseTable K V) (k : K) (v : V) : Option (LeaseTable K V × Nat) :=
  if h : t.held k = none then some (t.grant k v h, t.leases.length) else none

theorem acquire_eq_some {t t' : LeaseTable K V} {k : K} {v : V} {i : Nat}
    (h : t.acquire k v = some (t', i)) :
    t.held k = none ∧ t'.held = Function.update t.held k (some v) ∧
      i = t.leases.length ∧ t'.leases = t.leases ++ [⟨k, v, false⟩] := by
  simp only [acquire] at h
  split at h
  · rename_i h_free
    cases h
    exact ⟨h_free, rfl, rfl, rfl⟩
  · cases h

/-- An acquire opens exactly its own lease. -/
theorem isOpen_acquire {t t' : LeaseTable K V} {k : K} {v : V} {i : Nat}
    (h : t.acquire k v = some (t', i)) (j : Nat) (k' : K) (v' : V) :
    t'.IsOpen j k' v' ↔ t.IsOpen j k' v' ∨ (j = i ∧ k' = k ∧ v' = v) := by
  obtain ⟨-, -, rfl, h_leases⟩ := acquire_eq_some h
  rw [IsOpen, h_leases, List.getElem?_append]
  split
  · rename_i h_lt
    simp only [IsOpen, iff_self_or]
    omega
  · rename_i h_ge
    have h_none : ¬ t.IsOpen j k' v' := by
      simp [IsOpen, List.getElem?_eq_none (Nat.le_of_not_lt h_ge)]
    constructor
    · intro hj
      have h_lease := List.mem_of_getElem? hj
      have h_lt := (List.getElem?_eq_some_iff.mp hj).1
      simp only [List.mem_singleton, Lease.mk.injEq] at h_lease
      simp only [List.length_singleton] at h_lt
      exact .inr ⟨by omega, h_lease.1, h_lease.2.1⟩
    · rintro (hj | ⟨rfl, rfl, rfl⟩)
      · exact absurd hj h_none
      · simp

/-- Close the open lease `i` on `k`. -/
def close (t : LeaseTable K V) (i : Nat) (k : K) (v : V)
    (h : t.leases[i]? = some ⟨k, v, false⟩) : LeaseTable K V where
  held := Function.update t.held k none
  leases := t.leases.set i ⟨k, v, true⟩
  held_iff k' v' := by
    have h_open : ∀ j : Nat, (t.leases.set i ⟨k, v, true⟩)[j]? = some ⟨k', v', false⟩ ↔
        j ≠ i ∧ t.leases[j]? = some ⟨k', v', false⟩ := by
      intro j
      rw [List.getElem?_set]
      split
      · rename_i h_eq
        subst h_eq
        split <;> simp
      · rename_i h_ne
        exact (and_iff_right (Ne.symm h_ne)).symm
    simp only [h_open]
    by_cases hk : k' = k
    · subst hk
      rw [Function.update_self]
      refine iff_of_false (by simp) ?_
      rintro ⟨j, h_ne, hj⟩
      exact h_ne (t.unique j i k' v' v hj h)
    · rw [Function.update_of_ne hk, t.held_iff]
      refine exists_congr fun j => (and_iff_right_of_imp fun hj => ?_).symm
      rintro rfl
      rw [h] at hj
      cases hj
      exact hk rfl
  unique j l k' v' w' hj hl := by
    have h_old : ∀ (j : Nat) w, (t.leases.set i ⟨k, v, true⟩)[j]? = some ⟨k', w, false⟩ →
        t.leases[j]? = some ⟨k', w, false⟩ := by
      intro j w hj
      rw [List.getElem?_set] at hj
      split at hj
      · split at hj <;> simp at hj
      · exact hj
    exact t.unique j l k' v' w' (h_old j v' hj) (h_old l w' hl)

/-- Give the key of lease `i` back, unless that was done before. -/
def release (t : LeaseTable K V) (i : Nat) : LeaseTable K V :=
  match h : t.leases[i]? with
  | some ⟨k, v, false⟩ => t.close i k v h
  | _ => t

theorem release_eq {t : LeaseTable K V} {i : Nat} {k : K} {v : V} (h : t.IsOpen i k v) :
    (t.release i).held = Function.update t.held k none ∧
      (t.release i).leases = t.leases.set i ⟨k, v, true⟩ := by
  rw [IsOpen] at h
  unfold release
  split
  · rename_i h_lease
    rw [h] at h_lease
    cases h_lease
    exact ⟨rfl, rfl⟩
  · rename_i h_not
    exact absurd h (h_not k v)

/-- A release closes exactly its own lease. -/
theorem isOpen_release {t : LeaseTable K V} {i : Nat} {k : K} {v : V} (h : t.IsOpen i k v)
    (j : Nat) (k' : K) (v' : V) : (t.release i).IsOpen j k' v' ↔ j ≠ i ∧ t.IsOpen j k' v' := by
  rw [IsOpen, (release_eq h).2, List.getElem?_set]
  split
  · rename_i h_eq
    subst h_eq
    split <;> simp
  · rename_i h_ne
    exact (and_iff_right (Ne.symm h_ne)).symm

end LeaseTable

end Leases
