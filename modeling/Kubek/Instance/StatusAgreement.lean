/-
  Kubek.Instance.StatusAgreement

  The stored status against the process: once nothing runs and no launch is in
  progress, the server should be STOPPED or CRASHED.

  Two kinds of step break this. A launch that said STARTING can end without a
  process, and only `restartAfterCrash` repairs the status then
  (`failed_start_leaves_starting`); and a console line that matches a status pattern
  rewrites the row also after the exit. `statusGuard` leaves out exactly these, and
  only where nothing else still accounts for the row; every other run keeps the
  status honest (`statusHonest_of_reachableUnder`).
-/

import Kubek.Instance.SingleProcess

namespace Kubek.Instance

open ServerInstance Transition

/-- A server that is down and not about to come up is stored as STOPPED or CRASHED. -/
def StatusHonest (s : ServerInstance) : Prop :=
  s.anyRunning = false → s.launching = false → s.rowIdle = true

/-- The launch at `i` may end without a process: the row does not say otherwise, or a
    running process or another launch accounts for it. -/
def mayEndBare (s : ServerInstance) (i : Nat) : Bool :=
  s.rowIdle || s.anyRunning || (resume i (s, .done)).awaitingProcess

/-- The launch was begun by `restartAfterCrash`, which repairs the status on a throw. -/
def Call.isRepaired : Call → Bool
  | .launchCommand .restartAfterCrash | .launchStart .restartAfterCrash _ => true
  | _ => false

/-- The call awaits the start of a runtime whose spawn left no process. -/
def Call.spawnFailed (runtimes : List RuntimePhase) : Call → Bool
  | .launchStart _ r => runtimes[r]? == some .failed
  | _ => false

/-- No launch ends bare and no console line reports a status while nothing accounts
    for the row. -/
def statusGuard (cfg : InstanceConfig) (s : ServerInstance) : Event → Bool
  | .line _ text =>
      (cfg.detection.detect text).isNone || s.row.isNone || s.anyRunning || s.awaitingProcess
  | .commandThrew i | .startThrew i => (s.callAt i).isRepaired || mayEndBare s i
  | .startReturned i => !(s.callAt i).spawnFailed s.runtimes || mayEndBare s i
  | _ => true

/-- Something accounts for the row: a process, an idle status, or a launch that has not
    had its process yet. -/
def RowCovered (s : ServerInstance) : Prop :=
  s.anyRunning = true ∨ s.rowIdle = true ∨ s.awaitingProcess = true

namespace RowCovered

variable {s s' : ServerInstance}

theorem statusHonest (h : RowCovered s) : StatusHonest s := by
  intro h_down h_quiet
  obtain h_run | h_idle | h_await := h
  · rw [h_down] at h_run
    cases h_run
  · exact h_idle
  · obtain ⟨i, hi⟩ := (awaitingProcess_iff s).mp h_await
    have h_launch : (s.callAt i).isLaunch = true := by
      by_contra h_not
      rw [Call.awaitsProcess_of_not_launch (by simpa using h_not)] at hi
      cases hi
    rw [(launching_iff s).mpr ⟨i, h_launch⟩] at h_quiet
    cases h_quiet

theorem anyRunning_congr (runtimes : s'.runtimes = s.runtimes) :
    s'.anyRunning = s.anyRunning := by
  simp only [anyRunning, runtimes]

theorem rowIdle_congr (row : s'.row = s.row) : s'.rowIdle = s.rowIdle := by
  simp only [rowIdle, row]

/-- A launch other than the call that moved still awaits its process. -/
theorem awaiting_other {i j : Nat} {c : Call} (h_ne : j ≠ i)
    (hj : (s.callAt j).awaitsProcess s.runtimes = true)
    (calls : s'.callAt = Function.update s.callAt i c) (runtimes : s'.runtimes = s.runtimes) :
    s'.awaitingProcess = true := by
  refine (awaitingProcess_iff s').mpr ⟨j, ?_⟩
  rwa [calls, Function.update_of_ne h_ne, runtimes]

/-- What accounts for the row when the launch at `i` ends bare still does afterwards. -/
theorem of_mayEndBare {i : Nat} (h : mayEndBare s i = true) (h_at : s.callAt i ≠ .done)
    (calls : s'.callAt = Function.update s.callAt i .done)
    (runtimes : s'.runtimes = s.runtimes) (row : s'.row = s.row) : RowCovered s' := by
  simp only [mayEndBare, Bool.or_eq_true] at h
  obtain (h_idle | h_run) | h_await := h
  · exact .inr (.inl (rowIdle_congr row ▸ h_idle))
  · exact .inl (anyRunning_congr runtimes ▸ h_run)
  · obtain ⟨j, hj⟩ := (awaitingProcess_iff _).mp h_await
    refine .inr (.inr ((awaitingProcess_iff s').mpr ⟨j, ?_⟩))
    rw [callAt_resume rfl h_at rfl] at hj
    rwa [calls, runtimes]

/-- A step outside `launch()`. -/
theorem aside {cfg : InstanceConfig} {e : Event} {i : Nat} {c : Call} (h : RowCovered s)
    (h_guard : statusGuard cfg s e = true) (h_old : (s.callAt i).isLaunch = false)
    (calls : s'.callAt = Function.update s.callAt i c) (runtimes : s'.runtimes = s.runtimes)
    (row : RowChange cfg s e s') : RowCovered s' := by
  have h_live : s.anyRunning = true → RowCovered s' := fun h_run =>
    .inl (anyRunning_congr runtimes ▸ h_run)
  have h_await : s.awaitingProcess = true → RowCovered s' := by
    intro h_await
    obtain ⟨j, hj⟩ := (awaitingProcess_iff s).mp h_await
    refine .inr (.inr (awaiting_other ?_ hj calls runtimes))
    rintro rfl
    rw [Call.awaitsProcess_of_not_launch h_old] at hj
    cases hj
  cases row with
  | same h_row =>
    obtain h_run | h_idle | h_wait := h
    · exact h_live h_run
    · exact .inr (.inl (rowIdle_congr h_row ▸ h_idle))
    · exact h_await h_wait
  | idle h_idle => exact .inr (.inl h_idle)
  | live h_run => exact h_live (anyRunning_of_isRunning h_run)
  | line r text st he h_st h_row =>
    subst he
    simp only [statusGuard, h_st, Option.isNone_some, Bool.false_or, Bool.or_eq_true,
      Option.isNone_iff_eq_none] at h_guard
    obtain (h_none | h_run) | h_wait := h_guard
    · exact .inr (.inl (by simp [rowIdle, h_row, h_none]))
    · exact h_live h_run
    · exact h_await h_wait

/-- `launch()` throws. -/
theorem fails {cfg : InstanceConfig} {e : Event} {i : Nat} {caller : Caller}
    (h_guard : statusGuard cfg s e = true) (he : e = .commandThrew i ∨ e = .startThrew i)
    (h_at : s.callAt i = .launchCommand caller ∨ ∃ r, s.callAt i = .launchStart caller r)
    (calls : s'.callAt = Function.update s.callAt i .done)
    (runtimes : s'.runtimes = s.runtimes) (row : s'.row = (s.launchThrew caller).row) :
    RowCovered s' := by
  cases caller with
  | restartAfterCrash =>
    cases h_run : s.isRunning with
    | true => exact .inl (anyRunning_congr runtimes ▸ anyRunning_of_isRunning h_run)
    | false =>
      have h_idle := launchThrew_restartAfterCrash s h_run
      exact .inr (.inl (rowIdle_congr row ▸ h_idle))
  | start =>
    have h_bare : mayEndBare s i = true := by
      obtain rfl | rfl := he <;> obtain h_at | ⟨r, h_at⟩ := h_at <;>
        simpa [statusGuard, h_at, Call.isRepaired] using h_guard
    refine of_mayEndBare h_bare ?_ calls runtimes row
    obtain h_at | ⟨r, h_at⟩ := h_at <;> simp [h_at]

/-- `launch()` returns. -/
theorem returns {cfg : InstanceConfig} {i : Nat} {caller : Caller} {r : Nat}
    (h : RowCovered s) (h_guard : statusGuard cfg s (.startReturned i) = true)
    (h_at : s.callAt i = .launchStart caller r) (h_phase : s.runtimes[r]? ≠ some .created)
    (calls : s'.callAt = Function.update s.callAt i .done)
    (runtimes : s'.runtimes = s.runtimes) (row : s'.row = s.row) : RowCovered s' := by
  obtain h_run | h_idle | h_await := h
  · exact .inl (anyRunning_congr runtimes ▸ h_run)
  · exact .inr (.inl (rowIdle_congr row ▸ h_idle))
  · obtain ⟨j, hj⟩ := (awaitingProcess_iff s).mp h_await
    by_cases h_ne : j = i
    · -- the launch that returns is the one without a process
      subst h_ne
      have h_failed : s.runtimes[r]? = some .failed := by
        simpa [h_at, Call.awaitsProcess, h_phase] using hj
      have h_bare : mayEndBare s j = true := by
        simpa [statusGuard, h_at, Call.spawnFailed, h_failed] using h_guard
      exact of_mayEndBare h_bare (by simp [h_at]) calls runtimes row
    · exact .inr (.inr (awaiting_other h_ne hj calls runtimes))

/-- A runtime was made: it runs, or its launch awaits a process. -/
theorem ready {i : Nat} {caller : Caller} {phase : RuntimePhase} (h_phase : phase ≠ .exited)
    (calls : s'.callAt = Function.update s.callAt i (.launchStart caller s.runtimes.length))
    (runtimes : s'.runtimes = s.runtimes ++ [phase]) : RowCovered s' := by
  have h_new : s'.runtimes[s.runtimes.length]? = some phase := by simp [runtimes]
  cases phase with
  | exited => exact absurd rfl h_phase
  | running => exact .inl ((anyRunning_iff s').mpr ⟨_, h_new⟩)
  | created =>
    refine .inr (.inr ((awaitingProcess_iff s').mpr ⟨i, ?_⟩))
    simp [calls, Call.awaitsProcess, h_new]
  | failed =>
    refine .inr (.inr ((awaitingProcess_iff s').mpr ⟨i, ?_⟩))
    simp [calls, Call.awaitsProcess, h_new]

/-- One step of a run inside the guard. -/
theorem step {cfg : InstanceConfig} {held : Option ServerLockKind} {e : Event}
    (h : RowCovered s) (h_guard : statusGuard cfg s e = true)
    (h_step : Instance.step cfg held s e = some s') : RowCovered s' := by
  cases step_effect h_step with
  | aside i c h_old _ calls runtimes _ row => exact h.aside h_guard h_old calls runtimes row
  | enter i caller _ _ calls _ _ =>
    exact .inr (.inr ((awaitingProcess_iff s').mpr ⟨i, by simp [calls, Call.awaitsProcess]⟩))
  | ready i caller phase _ h_phase calls runtimes _ _ => exact ready h_phase calls runtimes
  | up i caller r _ h_phase _ runtimes _ _ =>
    refine .inl ((anyRunning_iff s').mpr ⟨r, ?_⟩)
    rw [runtimes, List.getElem?_set_self (List.getElem?_eq_some_iff.mp h_phase).1]
  | fails i caller he h_at calls runtimes _ row =>
    exact fails h_guard he (h_at.imp_right fun ⟨r, hr, _⟩ => ⟨r, hr⟩) calls runtimes row
  | returns i caller r he h_at h_phase calls runtimes _ row =>
    subst he
    exact h.returns h_guard h_at h_phase calls runtimes row
  | exit r i c _ _ _ _ _ row => exact .inr (.inl row)

end RowCovered

/-- **Status agreement.** In every run in which no launch ends bare and no console line
    reports a status while nothing accounts for the row, a server without a process and
    without a launch in progress is stored as STOPPED or CRASHED. -/
theorem statusHonest_of_reachableUnder (cfg : InstanceConfig) {s : ServerInstance}
    (h : (machine cfg).ReachableUnder (fun s e => statusGuard cfg s e.2 = true) s) :
    StatusHonest s := by
  refine RowCovered.statusHonest (Machine.ReachableUnder.invariant ?_ ?_ h)
  · rintro s ⟨row, setting, h_row, rfl⟩
    exact .inr (.inl (by simpa [rowIdle] using h_row))
  · intro s e s' h_covered h_guard h_step
    exact h_covered.step h_guard h_step

/-- A crash, a restart of its own that throws, and the status it leaves. -/
def crashAndFailedRestart : List LockedEvent :=
  [(none, .setRestartOnError (some ⟨true, 1⟩)), (none, .start), (none, .nativeReady 0 true),
   (none, .startReturned 0), (none, .exits 0 (some 134) none), (none, .crashDelayOver 1),
   (none, .commandThrew 1)]

theorem statusHonest_crashAndFailedRestart :
    ∃ s, (machine quietNative).runUnder (fun s e => statusGuard quietNative s e.2)
        freshInstance crashAndFailedRestart = some s ∧ s.row = some .crashed ∧
      StatusHonest s :=
  ⟨_, rfl, rfl, statusHonest_of_reachableUnder quietNative
    ((machine quietNative).reachableUnder_of_runUnder crashAndFailedRestart
      (.init (freshInstance_init quietNative)) rfl)⟩

/-- A `start()` whose launch command cannot be built. -/
def failedStart : List LockedEvent := [(none, .start), (none, .commandThrew 0)]

/-- The failed start leaves the server in STARTING, with no process and no launch. -/
theorem failed_start_leaves_starting :
    ¬ ∀ (cfg : InstanceConfig) (s : ServerInstance), (machine cfg).Reachable s →
        StatusHonest s := by
  intro h
  have h_reach : (machine quietNative).Reachable
      (((machine quietNative).run freshInstance failedStart).get rfl) :=
    (machine quietNative).reachable_of_run failedStart (.init (freshInstance_init quietNative))
      (Option.some_get _).symm
  have h_idle := h quietNative _ h_reach rfl rfl
  cases h_idle

end Kubek.Instance
