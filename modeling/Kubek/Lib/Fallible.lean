/-
  Kubek.Lib.Fallible

  Calls that may throw, as `Except` or `Option`: what the success of a composed call says of
  its parts. The lemmas are equivalences, so a `simp only` with them peels a whole chain of
  calls apart.
-/

import Mathlib.Tactic.Common

namespace Fallible

universe u v

variable {ε : Type u} {α β : Type v}

theorem ok_ne_error {a : α} {e : ε} : (Except.ok a : Except ε α) ≠ .error e := by
  intro h
  cases h

instance decidableEqExcept [DecidableEq ε] [DecidableEq α] : DecidableEq (Except ε α)
  | .ok a, .ok b => decidable_of_iff (a = b) ⟨congrArg Except.ok, Except.ok.inj⟩
  | .error a, .error b => decidable_of_iff (a = b) ⟨congrArg Except.error, Except.error.inj⟩
  | .ok _, .error _ => isFalse ok_ne_error
  | .error _, .ok _ => isFalse ok_ne_error.symm

theorem bind_eq_ok {x : Except ε α} {f : α → Except ε β} {b : β} :
    (x >>= f) = .ok b ↔ ∃ a, x = .ok a ∧ f a = .ok b := by
  cases x with
  | error e => simp [bind, Except.bind]
  | ok a => simp [bind, Except.bind]

theorem bind_eq_error {x : Except ε α} {f : α → Except ε β} {e : ε} :
    (x >>= f) = .error e ↔ x = .error e ∨ ∃ a, x = .ok a ∧ f a = .error e := by
  cases x with
  | error e => simp [bind, Except.bind]
  | ok a => simp [bind, Except.bind]

theorem map_eq_ok {x : Except ε α} {f : α → β} {b : β} :
    (f <$> x) = .ok b ↔ ∃ a, x = .ok a ∧ f a = b := by
  cases x with
  | error e => simp [Functor.map, Except.map]
  | ok a => simp [Functor.map, Except.map]

theorem pure_eq_ok {a b : α} : (pure a : Except ε α) = .ok b ↔ a = b := by
  simp [pure, Except.pure]

theorem mapError_eq_ok {ε' : Type u} {f : ε → ε'} {x : Except ε α} {a : α} :
    x.mapError f = .ok a ↔ x = .ok a := by
  cases x with
  | error e => simp [Except.mapError]
  | ok b => simp [Except.mapError]

/-- A check in front of a call. -/
theorem throw_else_eq_ok {c : Prop} [Decidable c] {e : ε} {x : Except ε α} {a : α} :
    (if c then throw e else x) = .ok a ↔ ¬ c ∧ x = .ok a := by
  by_cases h : c
  · rw [if_pos h]
    constructor
    · intro h_ok
      cases h_ok
    · rintro ⟨h_not, -⟩
      exact absurd h h_not
  · rw [if_neg h]
    exact ⟨fun h_ok => ⟨h, h_ok⟩, fun h_both => h_both.2⟩

/-- The results of the arguments one by one, none of which throws. -/
theorem eq_filterMap_of_mapM {f : α → Option β} {xs : List α} {ys : List β}
    (h : xs.mapM f = some ys) : ys = xs.filterMap f ∧ ∀ x ∈ xs, (f x).isSome = true := by
  induction xs generalizing ys with
  | nil =>
    cases h
    exact ⟨rfl, fun x h_mem => by cases h_mem⟩
  | cons x xs ih =>
    rw [List.mapM_cons, Option.bind_eq_bind, Option.bind_eq_some_iff] at h
    obtain ⟨y, h_y, h⟩ := h
    rw [Option.bind_eq_bind, Option.bind_eq_some_iff] at h
    obtain ⟨zs, h_zs, h⟩ := h
    cases h
    obtain ⟨h_eq, h_all⟩ := ih h_zs
    refine ⟨by rw [List.filterMap_cons_some h_y, ← h_eq], fun x' h_mem => ?_⟩
    obtain rfl | h_mem := List.mem_cons.mp h_mem
    · rw [h_y]
      rfl
    · exact h_all x' h_mem

/-- What computations one after another give, one of them gave. -/
theorem mem_of_mapM_ok {f : α → Except ε β} {xs : List α} {ys : List β} (h : xs.mapM f = .ok ys)
    {y : β} (h_y : y ∈ ys) : ∃ x ∈ xs, f x = .ok y := by
  induction xs generalizing ys with
  | nil =>
    rw [← Except.ok.inj h] at h_y
    cases h_y
  | cons x xs ih =>
    rw [List.mapM_cons, bind_eq_ok] at h
    obtain ⟨first, h_first, h_rest⟩ := h
    rw [bind_eq_ok] at h_rest
    obtain ⟨rest, h_rest, h_eq⟩ := h_rest
    rw [← Except.ok.inj h_eq] at h_y
    obtain rfl | h_y := List.mem_cons.mp h_y
    · exact ⟨x, List.mem_cons_self, h_first⟩
    · obtain ⟨other, h_other, h_found⟩ := ih h_rest h_y
      exact ⟨other, List.mem_cons_of_mem x h_other, h_found⟩

/-- Every result has its argument, and every argument its result. -/
theorem mem_of_mapM_some {f : α → Option β} {xs : List α} {ys : List β}
    (h : xs.mapM f = some ys) :
    (∀ x ∈ xs, ∃ y ∈ ys, f x = some y) ∧ ∀ y ∈ ys, ∃ x ∈ xs, f x = some y := by
  obtain ⟨rfl, h_all⟩ := eq_filterMap_of_mapM h
  refine ⟨fun x h_x => ?_, fun y h_y => List.mem_filterMap.mp h_y⟩
  obtain ⟨y, h_y⟩ := Option.isSome_iff_exists.mp (h_all x h_x)
  exact ⟨y, List.mem_filterMap.mpr ⟨x, h_x, h_y⟩, h_y⟩

end Fallible
