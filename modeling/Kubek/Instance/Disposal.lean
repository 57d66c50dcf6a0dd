/-
  Kubek.Instance.Disposal

  What `dispose()` stops. It sets a flag that only `restartAfterCrash` looks at
  after its pause; `start()` and `launch()` do not. A launch that awaits its
  command when the instance is disposed goes on to `runtime.start`
  (`disposed_launch_starts`), and so does any `start()` that comes later, the one
  at the end of a `restart()` included. While no step does either of these, a
  disposed instance starts nothing (`startsNone_of_reachableUnder`), whatever else
  is in flight: a pending crash restart, a `runtime.start` under way, a stop.
-/

import Kubek.Instance.Effects

namespace Kubek.Instance

open ServerInstance Transition

/-! ## Where `runtime.start` is invoked -/

/-- The step invokes `runtime.start`: `launch()` has its command. -/
def Event.invokesStart : Event → Bool
  | .nativeReady _ _ | .dockerReady _ => true
  | _ => false

/-- Some launch awaits its command. -/
def ServerInstance.awaitsCommand (s : ServerInstance) : Bool :=
  s.calls.any fun c => match c with
    | .launchCommand _ => true
    | _ => false

/-- A disposed instance invokes `runtime.start` with none of its next steps. -/
def StartsNone (cfg : InstanceConfig) (s : ServerInstance) : Prop :=
  s.disposed = true → ∀ held e, e.invokesStart = true → step cfg held s e = none

section

variable {cfg : InstanceConfig} {held : Option ServerLockKind} {s s' : ServerInstance}
  {e : Event}

theorem awaitsCommand_iff (s : ServerInstance) :
    s.awaitsCommand = true ↔ ∃ i caller, s.callAt i = .launchCommand caller := by
  rw [awaitsCommand, any_calls_iff s rfl]
  constructor
  · rintro ⟨i, hi⟩
    split at hi
    · rename_i caller h_at
      exact ⟨i, caller, h_at⟩
    · cases hi
  · rintro ⟨i, caller, h_at⟩
    exact ⟨i, by rw [h_at]⟩

/-- Every call of `runtime.start` is the end of a launch that awaited its command. -/
theorem awaitsCommand_of_invokesStart (h : step cfg held s e = some s')
    (he : e.invokesStart = true) : s.awaitsCommand = true := by
  refine (awaitsCommand_iff s).mpr ?_
  cases e with
  | nativeReady i spawned =>
    simp only [step] at h
    split at h
    · rename_i caller h_at
      exact ⟨i, caller, h_at⟩
    · cases h
  | dockerReady i =>
    simp only [step] at h
    split at h
    · rename_i caller h_at
      exact ⟨i, caller, h_at⟩
    · cases h
  | _ => cases he

/-- A launch that awaits its command goes on to `runtime.start`, disposed or not. -/
theorem invokesStart_of_awaitsCommand (cfg : InstanceConfig) (held : Option ServerLockKind)
    (h : s.awaitsCommand = true) :
    ∃ e s', e.invokesStart = true ∧ step cfg held s e = some s' := by
  obtain ⟨i, caller, h_at⟩ := (awaitsCommand_iff s).mp h
  cases h_kind : cfg.runtimeKind with
  | native =>
    exact ⟨.nativeReady i true, s.storeRuntime i caller .running, rfl, by simp [step, h_at, h_kind]⟩
  | docker =>
    exact ⟨.dockerReady i, s.storeRuntime i caller .created, rfl, by simp [step, h_at, h_kind]⟩

/-- So a disposed instance starts nothing exactly when no launch awaits its command. -/
theorem startsNone_iff (cfg : InstanceConfig) (h_disposed : s.disposed = true) :
    StartsNone cfg s ↔ s.awaitsCommand = false := by
  constructor
  · intro h_none
    by_contra h_await
    obtain ⟨e, s', he, h_step⟩ :=
      invokesStart_of_awaitsCommand cfg none (Bool.not_eq_false _ ▸ h_await)
    rw [h_none h_disposed none e he] at h_step
    cases h_step
  · intro h_await _ held e he
    by_contra h_some
    obtain ⟨s', h_step⟩ := Option.ne_none_iff_exists'.mp h_some
    rw [awaitsCommand_of_invokesStart h_step he] at h_await
    cases h_await

end

/-! ## The flag -/

namespace ServerInstance

section Frames

variable (s : ServerInstance) (cfg : InstanceConfig)

@[simp] theorem updateStatus_disposed (st : ServerStatus) :
    (s.updateStatus st).disposed = s.disposed := by
  simp only [updateStatus]; split
  · rfl
  · split <;> rfl

@[simp] theorem onLine_disposed (line : String) :
    (s.onLine cfg line).disposed = s.disposed := by
  simp only [onLine]; split <;> simp

@[simp] theorem onCrash_disposed : s.onCrash.disposed = s.disposed := by
  simp only [onCrash]; split <;> rfl

@[simp] theorem closeConsole_disposed (half : Option String) :
    (s.closeConsole cfg half).disposed = s.disposed := by
  cases half <;> simp [closeConsole]

@[simp] theorem onClose_disposed (code : Option Int) (half : Option String) :
    (s.onClose cfg code half).disposed = s.disposed := by
  cases h : isCrashCode code <;> simp [onClose, h]

@[simp] theorem launchThrew_disposed (caller : Caller) :
    (s.launchThrew caller).disposed = s.disposed := by
  cases caller
  · rfl
  · simp only [launchThrew]; split <;> simp

@[simp] theorem launch_disposed (held : Option ServerLockKind) (caller : Caller) :
    (s.launch held caller).1.disposed = s.disposed := by
  obtain ⟨-, h⟩ | ⟨-, -, h⟩ | ⟨-, -, h⟩ := launch_cases s held caller <;> simp [h]

@[simp] theorem start_disposed (held : Option ServerLockKind) :
    (s.start held).1.disposed = s.disposed := by
  simp only [start]
  split <;> simp

@[simp] theorem crashDelayOver_disposed (held : Option ServerLockKind) :
    (s.crashDelayOver held).1.disposed = s.disposed := by
  simp only [crashDelayOver]
  split
  · rfl
  · split <;> simp

@[simp] theorem stop_disposed : s.stop.1.disposed = s.disposed := by
  simp only [stop]; split
  · rfl
  · split <;> simp

@[simp] theorem restart_disposed : s.restart.1.disposed = s.disposed := by
  obtain ⟨-, h⟩ | ⟨-, c, -, h⟩ := restart_cases s <;> simp [h]

@[simp] theorem kill_disposed : s.kill.disposed = s.disposed := by
  simp only [kill]; split <;> rfl

@[simp] theorem push_disposed (p : ServerInstance × Call) : (push p).disposed = p.1.disposed := rfl

@[simp] theorem resume_disposed (i : Nat) (p : ServerInstance × Call) :
    (resume i p).disposed = p.1.disposed := rfl

end Frames

end ServerInstance

/-- Nothing but `dispose()` writes the flag. -/
theorem disposed_step {cfg : InstanceConfig} {held : Option ServerLockKind}
    {s s' : ServerInstance} {e : Event} (h : step cfg held s e = some s')
    (he : e ≠ .dispose) : s'.disposed = s.disposed := by
  cases e with
  | dispose => exact absurd rfl he
  | stopTimer t =>
    obtain ⟨p, -, rfl⟩ := Option.map_eq_some_iff.mp h
    rfl
  | stopSettled p =>
    obtain ⟨p, -, rfl⟩ := Option.map_eq_some_iff.mp h
    rfl
  | start | restart | stop | stopForShutdown | kill | removeRow | setRestartOnError setting =>
    simp only [step, Option.some.injEq] at h
    subst h
    simp [stopForShutdown]
  | restartDelayOver i | crashDelayOver i | commandThrew i | line r text | exits r code half =>
    simp only [step] at h
    split at h
    · cases h
      simp
    · cases h
  | restartStopped i | nativeReady i spawned | dockerReady i | containerUp i | startReturned i
  | startThrew i =>
    simp only [step] at h
    split at h
    · split at h <;> cases h
      all_goals simp [storeRuntime]
    · cases h

/-! ## Runs in which nothing slips past the flag -/

/-- The request enters `start()`: its own caller's, or the one that ends a restart. -/
def Event.entersStart : Event → Bool
  | .start | .restartDelayOver _ => true
  | _ => false

/-- No `dispose()` while a launch awaits its command, and no `start()` of a disposed
    instance that passes the checks of `launch()`. -/
def disposalGuard (held : Option ServerLockKind) (s : ServerInstance) (e : Event) : Bool :=
  (e != .dispose || !s.awaitsCommand) &&
    !(s.disposed && e.entersStart && s.opensLaunch held e)

/-- A launch awaits its command in a disposed instance only if one did already. -/
theorem awaitsCommand_step {cfg : InstanceConfig} {held : Option ServerLockKind}
    {s s' : ServerInstance} {e : Event} (h : step cfg held s e = some s')
    (h_opens : s.opensLaunch held e = false) (h_await : s'.awaitsCommand = true) :
    s.awaitsCommand = true := by
  obtain ⟨j, caller, h_j⟩ := (awaitsCommand_iff s').mp h_await
  -- a call that moved to something else than `launchCommand` is not the call `j`
  have h_kept : ∀ {i : Nat} {c : Call}, s'.callAt = Function.update s.callAt i c →
      (∀ caller, c ≠ .launchCommand caller) → s.awaitsCommand = true := by
    intro i c calls h_c
    obtain ⟨-, h_eq⟩ | ⟨-, h_old⟩ := callAt_cases calls h_j
    · exact absurd h_eq (h_c caller)
    · exact (awaitsCommand_iff s).mpr ⟨j, caller, h_old⟩
  have h_aside : ∀ {c : Call}, c.isLaunch = false → ∀ caller, c ≠ .launchCommand caller := by
    rintro c h_new caller rfl
    cases h_new
  cases step_effect h with
  | aside i c _ h_new calls _ _ _ => exact h_kept calls (h_aside h_new)
  | enter i caller _ opens _ _ _ =>
    rw [opens] at h_opens
    cases h_opens
  | ready i caller phase _ _ calls _ _ _ => exact h_kept calls (by simp)
  | up i caller r _ _ calls _ _ _ =>
    rw [calls] at h_j
    exact (awaitsCommand_iff s).mpr ⟨j, _, h_j⟩
  | fails i caller _ _ calls _ _ _ => exact h_kept calls (by simp)
  | returns i caller r _ _ _ calls _ _ _ => exact h_kept calls (by simp)
  | exit r i c _ h_new calls _ _ _ => exact h_kept calls (h_aside h_new)

/-- The pause of a crash restart is the one way into `launch()` that asks the flag. -/
theorem opensLaunch_disposed {held : Option ServerLockKind} {s : ServerInstance} {e : Event}
    (h_disposed : s.disposed = true) (h_guard : disposalGuard held s e = true) :
    s.opensLaunch held e = false := by
  by_contra h_opens
  rw [Bool.not_eq_false] at h_opens
  simp only [disposalGuard, h_disposed, h_opens, Bool.true_and, Bool.and_true,
    Bool.and_eq_true, Bool.not_eq_true'] at h_guard
  cases e <;> simp_all [opensLaunch, Event.entersStart]

/-- One step of a run inside the guard. -/
theorem awaitsCommand_disposed_step {cfg : InstanceConfig} {held : Option ServerLockKind}
    {s s' : ServerInstance} {e : Event}
    (h_quiet : s.disposed = true → s.awaitsCommand = false)
    (h_guard : disposalGuard held s e = true) (h : step cfg held s e = some s')
    (h_disposed : s'.disposed = true) : s'.awaitsCommand = false := by
  by_cases he : e = .dispose
  · subst he
    cases h
    show s.awaitsCommand = false
    simpa [disposalGuard, opensLaunch, Event.entersStart] using h_guard
  · rw [disposed_step h he] at h_disposed
    have h_opens := opensLaunch_disposed h_disposed h_guard
    by_contra h_await
    have h_old := awaitsCommand_step h h_opens (Bool.not_eq_false _ ▸ h_await)
    rw [h_quiet h_disposed] at h_old
    cases h_old

/-- **Disposal.** In every run in which no `dispose()` falls into a launch that awaits its
    command and no `start()` of a disposed instance gets into `launch()`, no step after
    `dispose()` invokes `runtime.start`. -/
theorem startsNone_of_reachableUnder (cfg : InstanceConfig) {s : ServerInstance}
    (h : (machine cfg).ReachableUnder (fun s e => disposalGuard e.1 s e.2 = true) s) :
    StartsNone cfg s := by
  have h_quiet : s.disposed = true → s.awaitsCommand = false := by
    refine Machine.ReachableUnder.invariant
      (P := fun s => s.disposed = true → s.awaitsCommand = false) ?_ ?_ h
    · rintro s ⟨row, setting, -, rfl⟩ h_disposed
      cases h_disposed
    · intro s e s' h_quiet h_guard h_step
      exact awaitsCommand_disposed_step h_quiet h_guard h_step
  intro h_disposed
  exact (startsNone_iff cfg h_disposed).mpr (h_quiet h_disposed) h_disposed

/-- A crash whose restart is pending when the instance is disposed. -/
def crashThenDispose : List LockedEvent :=
  [(none, .setRestartOnError (some ⟨true, 1⟩)), (none, .start), (none, .nativeReady 0 true),
   (none, .startReturned 0), (none, .exits 0 (some 134) none), (none, .dispose),
   (none, .crashDelayOver 1)]

theorem startsNone_crashThenDispose :
    ∃ s, (machine quietNative).runUnder (fun s e => disposalGuard e.1 s e.2) freshInstance
        crashThenDispose = some s ∧ s.disposed = true ∧ StartsNone quietNative s :=
  ⟨_, rfl, rfl, startsNone_of_reachableUnder quietNative
    ((machine quietNative).reachableUnder_of_runUnder crashThenDispose
      (.init (freshInstance_init quietNative)) rfl)⟩

/-! ## A process of a deleted server -/

/-- The server is deleted while its `start()` awaits the command. -/
def startThenDispose : List LockedEvent := [(none, .start), (none, .dispose)]

/-- The launch goes on to `runtime.start` all the same. -/
theorem disposed_launch_starts :
    ¬ ∀ (cfg : InstanceConfig) (s : ServerInstance), (machine cfg).Reachable s →
        StartsNone cfg s := by
  intro h
  have h_reach : (machine quietNative).Reachable
      (((machine quietNative).run freshInstance startThenDispose).get rfl) :=
    (machine quietNative).reachable_of_run startThenDispose
      (.init (freshInstance_init quietNative)) (Option.some_get _).symm
  have h_none := h quietNative _ h_reach rfl none (.nativeReady 0 true) rfl
  cases h_none

end Kubek.Instance
