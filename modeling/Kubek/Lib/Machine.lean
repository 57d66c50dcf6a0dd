/-
  Kubek.Lib.Machine

  Guarded, executable transition systems over an arbitrary state and event type.

  `step s e` is `some s'` when the event `e` is enabled in `s` and `none`
  otherwise, so one definition is replayed on concrete runs (`Machine.run`) and
  reasoned about over every run (`Machine.ReachableUnder`).

  The runs of interest are often not all runs but those whose steps stay inside
  some discipline (`Guard`): a request that does not overlap another one, a
  message that names nothing it should not. `ReachableUnder G` are the states
  reached by runs all of whose steps satisfy `G` in the state they are taken
  from; `Reachable` is the case of no restriction at all.
-/

import Mathlib.Tactic.Common

namespace Transition

universe u v

/-- A transition system: its initial states and its guarded step function. -/
structure Machine (S : Type u) (E : Type v) where
  init : S → Prop
  step : S → E → Option S

/-- A restriction on the steps a run may take. -/
abbrev Guard (S : Type u) (E : Type v) := S → E → Prop

namespace Machine

variable {S : Type u} {E : Type v} (M : Machine S E)

/-- Replay the events from `s`; `none` as soon as one of them is not enabled. -/
def run : S → List E → Option S
  | s, [] => some s
  | s, e :: es => (M.step s e).bind fun s' => run s' es

@[simp] theorem run_nil (s : S) : M.run s [] = some s := rfl

@[simp] theorem run_cons (s : S) (e : E) (es : List E) :
    M.run s (e :: es) = (M.step s e).bind fun s' => M.run s' es := rfl

/-- Two runs one after the other. -/
theorem run_append (s : S) (es fs : List E) :
    M.run s (es ++ fs) = (M.run s es).bind fun s' => M.run s' fs := by
  induction es generalizing s with
  | nil => rfl
  | cons e es ih =>
    cases h : M.step s e with
    | none => simp [h]
    | some s' => simp [h, ih]

/-- States reached by runs whose every step satisfies the guard `G`. -/
inductive ReachableUnder (G : Guard S E) : S → Prop
  | init {s : S} (h : M.init s) : ReachableUnder G s
  | step {s s' : S} {e : E} (hs : ReachableUnder G s) (hG : G s e)
      (h : M.step s e = some s') : ReachableUnder G s'

/-- States reached by any run. -/
def Reachable (s : S) : Prop := M.ReachableUnder (fun _ _ => True) s

/-- One more unrestricted step. -/
theorem Reachable.next {M : Machine S E} {s s' : S} {e : E} (hs : M.Reachable s)
    (h : M.step s e = some s') : M.Reachable s' :=
  ReachableUnder.step hs trivial h

/-- A weaker guard reaches at least as much. -/
theorem ReachableUnder.mono {M : Machine S E} {G H : Guard S E} {s : S}
    (hGH : ∀ s e, G s e → H s e) (h : M.ReachableUnder G s) :
    M.ReachableUnder H s := by
  induction h with
  | init h => exact .init h
  | step _ hG h ih => exact .step ih (hGH _ _ hG) h

/-- The invariant rule: what holds initially and is kept by every step the guard
    allows holds in every state reached under it. -/
theorem ReachableUnder.invariant {M : Machine S E} {G : Guard S E} {P : S → Prop}
    (h_init : ∀ s, M.init s → P s)
    (h_step : ∀ s e s', P s → G s e → M.step s e = some s' → P s')
    {s : S} (h : M.ReachableUnder G s) : P s := by
  induction h with
  | init h => exact h_init _ h
  | step _ hG h ih => exact h_step _ _ _ ih hG h

/-- The invariant rule over all runs. -/
theorem Reachable.invariant {M : Machine S E} {P : S → Prop}
    (h_init : ∀ s, M.init s → P s)
    (h_step : ∀ s e s', P s → M.step s e = some s' → P s')
    {s : S} (h : M.Reachable s) : P s :=
  ReachableUnder.invariant h_init (fun s e s' hP _ => h_step s e s' hP) h

/-- Where every step takes a rank down, no run is longer than the rank it starts with. -/
theorem length_le_rank {rank : S → Nat}
    (h_step : ∀ s e s', M.step s e = some s' → rank s' < rank s) {s s' : S} (es : List E)
    (h : M.run s es = some s') : es.length + rank s' ≤ rank s := by
  induction es generalizing s with
  | nil =>
    have h_eq : s = s' := by simpa using h
    rw [h_eq]
    exact Nat.le_of_eq (Nat.zero_add _)
  | cons e es ih =>
    obtain ⟨t, h_t, h_run⟩ := Option.bind_eq_some_iff.mp h
    have h_rest := ih h_run
    have h_first := h_step s e t h_t
    rw [List.length_cons]
    omega

/-- A replay of events that the guard allows in every state. -/
theorem reachableUnder_of_run {G : Guard S E} {s s' : S} (es : List E)
    (hG : ∀ e ∈ es, ∀ t, G t e) (hs : M.ReachableUnder G s) (h : M.run s es = some s') :
    M.ReachableUnder G s' := by
  induction es generalizing s with
  | nil =>
    have : s = s' := by simpa using h
    exact this ▸ hs
  | cons e es ih =>
    obtain ⟨t, ht, hrun⟩ := Option.bind_eq_some_iff.mp h
    have ht_reach := ReachableUnder.step hs (hG e List.mem_cons_self s) ht
    exact ih (fun e' he' => hG e' (List.mem_cons_of_mem _ he')) ht_reach hrun

/-- A replay that starts in a reachable state ends in one. -/
theorem reachable_of_run {s s' : S} (es : List E) (hs : M.Reachable s)
    (h : M.run s es = some s') : M.Reachable s' :=
  M.reachableUnder_of_run es (fun _ _ _ => trivial) hs h

/-- A replay all of whose steps satisfy a decidable guard. -/
def runUnder (G : S → E → Bool) : S → List E → Option S
  | s, [] => some s
  | s, e :: es => if G s e then (M.step s e).bind fun s' => runUnder G s' es else none

/-- A guarded replay from an initial state ends in a state reached under the guard. -/
theorem reachableUnder_of_runUnder {G : S → E → Bool} {s s' : S} (es : List E)
    (hs : M.ReachableUnder (fun s e => G s e = true) s)
    (h : M.runUnder G s es = some s') :
    M.ReachableUnder (fun s e => G s e = true) s' := by
  induction es generalizing s with
  | nil =>
    have : s = s' := by simpa [runUnder] using h
    exact this ▸ hs
  | cons e es ih =>
    by_cases hG : G s e = true
    · simp only [runUnder, hG, if_true] at h
      obtain ⟨t, ht, hrun⟩ := Option.bind_eq_some_iff.mp h
      exact ih (.step hs hG ht) hrun
    · simp [runUnder, hG] at h

end Machine

end Transition
