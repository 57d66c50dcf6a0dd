/-
  Kubek.Lib.Suspended

  Work that is suspended at an await, over an arbitrary type of continuations.

  A system that lets any number of requests interleave keeps them in a list: a new
  one is appended, one that goes on is overwritten in place, so an index names the
  same request for good. `d` stands for a request that is over; `get` reads it
  wherever there is none, so that a step changes the reading at exactly one index.
-/

import Mathlib.Logic.Function.Basic

namespace Suspended

universe u

variable {C : Type u} (d : C)

/-- The request at index `i`, over where there is none. -/
def get (calls : List C) (i : Nat) : C := (calls[i]?).getD d

@[simp] theorem get_length (calls : List C) : get d calls calls.length = d := by
  simp [get]

@[simp] theorem get_nil (i : Nat) : get d [] i = d := rfl

theorem lt_of_get_ne {calls : List C} {i : Nat} (h : get d calls i ≠ d) : i < calls.length := by
  by_contra h_ge
  exact h (by simp [get, List.getElem?_eq_none (Nat.le_of_not_lt h_ge)])

/-- A new request joins. -/
theorem get_push (calls : List C) (c : C) :
    get d (calls ++ [c]) = Function.update (get d calls) calls.length c := by
  funext j
  by_cases hj : j = calls.length
  · subst hj
    simp [get]
  · rw [Function.update_of_ne hj]
    simp only [get, List.getElem?_append]
    by_cases hlt : j < calls.length
    · simp [hlt]
    · have h_gt : j - calls.length ≠ 0 := by omega
      simp [hlt, h_gt]

/-- The request at `i` goes on. -/
theorem get_set {calls : List C} {i : Nat} (hi : i < calls.length) (c : C) :
    get d (calls.set i c) = Function.update (get d calls) i c := by
  funext j
  by_cases hj : j = i
  · subst hj
    simp [get, hi]
  · rw [Function.update_of_ne hj]
    simp only [get, List.getElem?_set_ne (Ne.symm hj)]

/-- Where a request of the next state comes from, when one of them moved. -/
theorem update_cases {f g : Nat → C} {i j : Nat} {c x : C} (h : g = Function.update f i c)
    (hj : g j = x) : (j = i ∧ c = x) ∨ (j ≠ i ∧ f j = x) := by
  rw [h] at hj
  by_cases h_eq : j = i
  · subst h_eq
    exact .inl ⟨rfl, by simpa using hj⟩
  · exact .inr ⟨h_eq, by simpa [h_eq] using hj⟩

end Suspended
