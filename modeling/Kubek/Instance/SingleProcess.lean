/-
  Kubek.Instance.SingleProcess

  At most one process per instance, and the stored runtime is that process.

  `isRunning()` asks the stored runtime only, and `launch()` awaits between that
  question and the start of the runtime it makes. Two launches that are both past
  the question bring up two processes (`two_starts_two_processes`). While no call
  enters `launch()` as long as another one may still bring a runtime up, the
  instance never has a second process (`singleProcess_of_reachableUnder`).
-/

import Kubek.Instance.Effects

namespace Kubek.Instance

open ServerInstance Transition

/-- At most one runtime runs, and it is the one `stop`, `kill` and `input` reach. -/
structure SingleProcess (s : ServerInstance) : Prop where
  unique : ∀ r r' : Nat, s.runtimes[r]? = some .running → s.runtimes[r']? = some .running → r = r'
  stored : ∀ r : Nat, s.runtimes[r]? = some .running → s.serverRuntime = some r

/-- The step does not enter `launch()` while another launch may bring a runtime up. -/
def launchesAlone (held : Option ServerLockKind) (s : ServerInstance) (e : Event) : Bool :=
  !(s.opensLaunch held e && s.bringingUp)

/-- What keeps launches from overlapping: the launch that may bring a runtime up is the
    only one, nothing runs while it waits for its command, and the runtime it starts is
    the stored one. -/
structure LaunchInv (s : ServerInstance) : Prop where
  made : ∀ i caller r, s.callAt i = .launchStart caller r → r < s.runtimes.length
  stored : ∀ r : Nat, s.runtimes[r]? = some .running → s.serverRuntime = some r
  alone : ∀ i j, (s.callAt i).bringsUp s.runtimes = true →
    (s.callAt j).bringsUp s.runtimes = true → i = j
  down : ∀ i caller, s.callAt i = .launchCommand caller → s.isRunning = false
  started : ∀ i caller r, s.callAt i = .launchStart caller r →
    s.runtimes[r]? = some .created → s.serverRuntime = some r

namespace LaunchInv

variable {s s' : ServerInstance}

theorem singleProcess (h : LaunchInv s) : SingleProcess s where
  unique r r' hr hr' := by
    have h_eq : some r = some r' := (h.stored r hr).symm.trans (h.stored r' hr')
    simpa using h_eq
  stored := h.stored

/-- While a launch waits for its command no runtime of the instance runs. -/
theorem none_running (h : LaunchInv s) {i : Nat} {caller : Caller}
    (h_at : s.callAt i = .launchCommand caller) (r : Nat) :
    s.runtimes[r]? ≠ some .running := by
  intro hr
  have h_down := h.down i caller h_at
  simp [isRunning, h.stored r hr, hr] at h_down

theorem init {row : ServerStatus} {setting : Option RestartOnError} :
    LaunchInv { row := some row, restartOnError := setting } := by
  constructor <;> simp [callAt, Call.bringsUp]

/-- Any call outside `launch()` may move on. -/
theorem aside (h : LaunchInv s) {i : Nat} {c : Call} (h_new : c.isLaunch = false)
    (calls : s'.callAt = Function.update s.callAt i c) (runtimes : s'.runtimes = s.runtimes)
    (server : s'.serverRuntime = s.serverRuntime) : LaunchInv s' where
  made j caller r hj := by
    obtain ⟨-, rfl⟩ | ⟨-, hj⟩ := callAt_cases calls hj
    · cases h_new
    · exact runtimes ▸ h.made j caller r hj
  stored r hr := server ▸ h.stored r (runtimes ▸ hr)
  alone j k hj hk := by
    rw [runtimes] at hj hk
    have h_old : ∀ j, (s'.callAt j).bringsUp s.runtimes = true →
        (s.callAt j).bringsUp s.runtimes = true := by
      intro j hj
      obtain ⟨-, h_c⟩ | ⟨-, h_j⟩ := callAt_cases calls rfl (j := j)
      · rw [← h_c, Call.bringsUp_of_not_launch h_new] at hj
        cases hj
      · rwa [h_j]
    exact h.alone j k (h_old j hj) (h_old k hk)
  down j caller hj := by
    obtain ⟨-, rfl⟩ | ⟨-, hj⟩ := callAt_cases calls hj
    · cases h_new
    · exact (isRunning_congr runtimes server).trans (h.down j caller hj)
  started j caller r hj hr := by
    obtain ⟨-, rfl⟩ | ⟨-, hj⟩ := callAt_cases calls hj
    · cases h_new
    · exact server ▸ h.started j caller r hj (runtimes ▸ hr)

/-- A launch may begin while no other one may bring a runtime up. -/
theorem enter (h : LaunchInv s) {i : Nat} {caller : Caller} (h_down : s.isRunning = false)
    (h_alone : s.bringingUp = false)
    (calls : s'.callAt = Function.update s.callAt i (.launchCommand caller))
    (runtimes : s'.runtimes = s.runtimes) (server : s'.serverRuntime = s.serverRuntime) :
    LaunchInv s' where
  made j caller' r hj := by
    obtain ⟨-, h_c⟩ | ⟨-, hj⟩ := callAt_cases calls hj
    · cases h_c
    · exact runtimes ▸ h.made j caller' r hj
  stored r hr := server ▸ h.stored r (runtimes ▸ hr)
  alone j k hj hk := by
    rw [runtimes] at hj hk
    have h_new : ∀ j, (s'.callAt j).bringsUp s.runtimes = true → j = i := by
      intro j hj
      obtain ⟨h_i, -⟩ | ⟨-, h_j⟩ := callAt_cases calls rfl (j := j)
      · exact h_i
      · have h_busy : s.bringingUp = true := (bringingUp_iff s).mpr ⟨j, by rwa [h_j]⟩
        rw [h_alone] at h_busy
        cases h_busy
    exact (h_new j hj).trans (h_new k hk).symm
  down j caller' hj := (isRunning_congr runtimes server).trans h_down
  started j caller' r hj hr := by
    obtain ⟨-, h_c⟩ | ⟨-, hj⟩ := callAt_cases calls hj
    · cases h_c
    · exact server ▸ h.started j caller' r hj (runtimes ▸ hr)

/-- The launch with the command makes, stores and starts its runtime. -/
theorem ready (h : LaunchInv s) {i : Nat} {caller : Caller} {phase : RuntimePhase}
    (h_at : s.callAt i = .launchCommand caller)
    (calls : s'.callAt = Function.update s.callAt i (.launchStart caller s.runtimes.length))
    (runtimes : s'.runtimes = s.runtimes ++ [phase])
    (server : s'.serverRuntime = some s.runtimes.length) : LaunchInv s' := by
  have h_i : (s.callAt i).bringsUp s.runtimes = true := by rw [h_at]; rfl
  -- every other launch is past the point where it could bring a runtime up
  have h_other : ∀ j, j ≠ i → ∀ caller', s.callAt j ≠ .launchCommand caller' := by
    intro j hj caller' h_j
    exact hj (h.alone j i (by rw [h_j]; rfl) h_i)
  have h_started : ∀ j, j ≠ i → ∀ caller' r, s.callAt j = .launchStart caller' r →
      s'.runtimes[r]? ≠ some .created := by
    intro j hj caller' r h_j hr
    have h_lt := h.made j caller' r h_j
    rw [runtimes, List.getElem?_append_left h_lt] at hr
    exact hj (h.alone j i (by simp [h_j, Call.bringsUp, hr]) h_i)
  refine ⟨?_, ?_, ?_, ?_, ?_⟩
  · intro j caller' r hj
    rw [runtimes, List.length_append, List.length_singleton]
    obtain ⟨-, h_c⟩ | ⟨-, hj⟩ := callAt_cases calls hj
    · cases h_c
      omega
    · have := h.made j caller' r hj
      omega
  · intro r hr
    rw [runtimes, List.getElem?_append] at hr
    split at hr
    · exact absurd hr (h.none_running h_at r)
    · rename_i h_ge
      have h_lt := (List.getElem?_eq_some_iff.mp hr).1
      rw [server]
      simp only [List.length_singleton] at h_lt
      congr 1
      omega
  · have h_new : ∀ j, (s'.callAt j).bringsUp s'.runtimes = true → j = i := by
      intro j hj
      by_contra h_ne
      rw [calls, Function.update_of_ne h_ne] at hj
      cases h_j : s.callAt j with
      | launchCommand caller' => exact h_other j h_ne caller' h_j
      | launchStart caller' r =>
        rw [h_j] at hj
        exact h_started j h_ne caller' r h_j (by simpa [Call.bringsUp] using hj)
      | restartStopping p => rw [h_j] at hj; cases hj
      | restartDelay => rw [h_j] at hj; cases hj
      | crashDelay => rw [h_j] at hj; cases hj
      | done => rw [h_j] at hj; cases hj
    exact fun j k hj hk => (h_new j hj).trans (h_new k hk).symm
  · intro j caller' hj
    obtain ⟨-, h_c⟩ | ⟨h_ne, hj⟩ := callAt_cases calls hj
    · cases h_c
    · exact absurd hj (h_other j h_ne caller')
  · intro j caller' r hj hr
    obtain ⟨-, h_c⟩ | ⟨h_ne, hj⟩ := callAt_cases calls hj
    · cases h_c
      exact server
    · exact absurd hr (h_started j h_ne caller' r hj)

/-- A container comes up: it is the stored one, and nothing ran before. -/
theorem up (h : LaunchInv s) {i : Nat} {caller : Caller} {r : Nat}
    (h_at : s.callAt i = .launchStart caller r) (h_phase : s.runtimes[r]? = some .created)
    (calls : s'.callAt = s.callAt) (runtimes : s'.runtimes = s.runtimes.set r .running)
    (server : s'.serverRuntime = s.serverRuntime) : LaunchInv s' := by
  have h_i : (s.callAt i).bringsUp s.runtimes = true := by simp [h_at, Call.bringsUp, h_phase]
  have h_server : s.serverRuntime = some r := h.started i caller r h_at h_phase
  -- only the phase of `r` changed, and it was created before
  have h_created : ∀ q : Nat, s'.runtimes[q]? = some .created → s.runtimes[q]? = some .created := by
    intro q hq
    rw [runtimes, List.getElem?_set] at hq
    split at hq
    · split at hq <;> simp at hq
    · exact hq
  refine ⟨?_, ?_, ?_, ?_, ?_⟩
  · intro j caller' q hj
    rw [runtimes, List.length_set]
    exact h.made j caller' q (calls ▸ hj)
  · intro q hq
    rw [server, h_server]
    rw [runtimes, List.getElem?_set] at hq
    split at hq
    · rename_i h_eq
      rw [h_eq]
    · exact h_server ▸ h.stored q hq
  · have h_old : ∀ j, (s'.callAt j).bringsUp s'.runtimes = true →
        (s.callAt j).bringsUp s.runtimes = true := by
      intro j hj
      rw [calls] at hj
      exact Call.bringsUp_mono h_created hj
    exact fun j k hj hk => h.alone j k (h_old j hj) (h_old k hk)
  · intro j caller' hj
    rw [calls] at hj
    have h_eq : j = i := h.alone j i (by rw [hj]; rfl) h_i
    rw [h_eq, h_at] at hj
    cases hj
  · intro j caller' q hj hq
    rw [server]
    exact h.started j caller' q (calls ▸ hj) (h_created q hq)

/-- A runtime that is gone was the only one running. -/
theorem exit (h : LaunchInv s) {r i : Nat} {c : Call} (h_new : c.isLaunch = false)
    (calls : s'.callAt = Function.update s.callAt i c)
    (runtimes : s'.runtimes = s.runtimes.set r .exited)
    (server : s'.serverRuntime = s.serverRuntime) : LaunchInv s' := by
  -- no runtime enters another phase than `exited`
  have h_phase : ∀ (q : Nat) (phase : RuntimePhase), phase ≠ .exited →
      s'.runtimes[q]? = some phase → s.runtimes[q]? = some phase := by
    intro q phase h_ne hq
    rw [runtimes, List.getElem?_set] at hq
    split at hq
    · split at hq
      · cases hq
        exact absurd rfl h_ne
      · cases hq
    · exact hq
  refine ⟨?_, ?_, ?_, ?_, ?_⟩
  · intro j caller q hj
    rw [runtimes, List.length_set]
    obtain ⟨-, rfl⟩ | ⟨-, hj⟩ := callAt_cases calls hj
    · cases h_new
    · exact h.made j caller q hj
  · intro q hq
    exact server ▸ h.stored q (h_phase q .running (by simp) hq)
  · have h_old : ∀ j, (s'.callAt j).bringsUp s'.runtimes = true →
        (s.callAt j).bringsUp s.runtimes = true := by
      intro j hj
      obtain ⟨-, h_c⟩ | ⟨-, h_j⟩ := callAt_cases calls rfl (j := j)
      · rw [← h_c, Call.bringsUp_of_not_launch h_new] at hj
        cases hj
      · rw [← h_j] at hj
        exact Call.bringsUp_mono (fun q => h_phase q .created (by simp)) (h_j ▸ hj)
    exact fun j k hj hk => h.alone j k (h_old j hj) (h_old k hk)
  · intro j caller hj
    obtain ⟨-, rfl⟩ | ⟨-, hj⟩ := callAt_cases calls hj
    · cases h_new
    · by_contra h_run
      obtain ⟨q, hq⟩ := (anyRunning_iff s').mp
        (anyRunning_of_isRunning (Bool.not_eq_false _ ▸ h_run))
      exact h.none_running hj q (h_phase q .running (by simp) hq)
  · intro j caller q hj hq
    obtain ⟨-, rfl⟩ | ⟨-, hj⟩ := callAt_cases calls hj
    · cases h_new
    · exact server ▸ h.started j caller q hj (h_phase q .created (by simp) hq)

/-- One step of a run in which launches do not overlap. -/
theorem step {cfg : InstanceConfig} {held : Option ServerLockKind} {e : Event}
    (h : LaunchInv s) (h_alone : launchesAlone held s e = true)
    (h_step : Instance.step cfg held s e = some s') : LaunchInv s' := by
  cases step_effect h_step with
  | aside i c _ h_new calls runtimes server _ => exact h.aside h_new calls runtimes server
  | enter i caller _ opens calls runtimes server =>
    have h_down : s.isRunning = false := by
      cases e <;> simp_all [opensLaunch]
    have h_none : s.bringingUp = false := by simpa [launchesAlone, opens] using h_alone
    exact h.enter h_down h_none calls runtimes server
  | ready i caller phase h_at _ calls runtimes server _ => exact h.ready h_at calls runtimes server
  | up i caller r h_at h_phase calls runtimes server _ =>
    exact h.up h_at h_phase calls runtimes server
  | fails i caller _ _ calls runtimes server _ => exact h.aside rfl calls runtimes server
  | returns i caller r _ _ _ calls runtimes server _ => exact h.aside rfl calls runtimes server
  | exit r i c _ h_new calls runtimes server _ => exact h.exit h_new calls runtimes server

end LaunchInv

/-- **Single process.** In every run in which no call enters `launch()` while another
    launch may still bring a runtime up, whatever else happens in whatever order, at most
    one runtime of the instance runs and it is the stored one. -/
theorem singleProcess_of_reachableUnder (cfg : InstanceConfig) {s : ServerInstance}
    (h : (machine cfg).ReachableUnder (fun s e => launchesAlone e.1 s e.2 = true) s) :
    SingleProcess s := by
  refine LaunchInv.singleProcess (Machine.ReachableUnder.invariant ?_ ?_ h)
  · rintro s ⟨row, setting, -, rfl⟩
    exact LaunchInv.init
  · intro s e s' h_inv h_alone h_step
    exact h_inv.step h_alone h_step

/-! ## A run with two processes -/

/-- A start, a stop that the process obeys, and a start again. -/
def startStopStart : List LockedEvent :=
  [(none, .start), (none, .nativeReady 0 true), (none, .startReturned 0), (none, .stop),
   (none, .exits 0 (some 0) none), (none, .start), (none, .nativeReady 1 true)]

theorem singleProcess_startStopStart :
    ∃ s, (machine quietNative).runUnder (fun s e => launchesAlone e.1 s e.2) freshInstance
        startStopStart = some s ∧ s.runtimes = [.exited, .running] ∧ SingleProcess s :=
  ⟨_, rfl, rfl, singleProcess_of_reachableUnder quietNative
    ((machine quietNative).reachableUnder_of_runUnder startStopStart
      (.init (freshInstance_init quietNative)) rfl)⟩

/-- Two `start()` calls that both wait for their command. -/
def twoStarts : List LockedEvent :=
  [(none, .start), (none, .start), (none, .nativeReady 0 true), (none, .nativeReady 1 true)]

/-- The first of two overlapping starts keeps a process that nothing reaches. -/
theorem two_starts_two_processes :
    ¬ ∀ (cfg : InstanceConfig) (s : ServerInstance), (machine cfg).Reachable s →
        SingleProcess s := by
  intro h
  have h_reach : (machine quietNative).Reachable
      (((machine quietNative).run freshInstance twoStarts).get rfl) :=
    (machine quietNative).reachable_of_run twoStarts (.init (freshInstance_init quietNative))
      (Option.some_get _).symm
  have h_eq := (h quietNative _ h_reach).unique 0 1 rfl rfl
  cases h_eq

end Kubek.Instance
