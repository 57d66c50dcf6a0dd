/-
  Kubek.Instance.CrashRestarts

  Automatic launches after a crash (crash-restart.ts, `onClose` and `restartAfterCrash` of
  instance.ts), counted over whole runs.

  `onClose` asks the policy and counts, `restartAfterCrash` launches a second later and asks
  only what the status is then. A start by hand, a RUNNING line or a change of the setting in
  between does not take the scheduled restart back. `Watched` adds to the instance what the
  bound is about: the automatic launches since the count was last reset, and the runtimes that
  were asked to exit. While no restart outlives what it was scheduled for, launches and
  scheduled restarts together never exceed the policy's count (`Budget`).
-/

import Kubek.Instance.Effects

namespace Kubek.Instance

open ServerInstance Transition

/-! ## The watched instance -/

/-- The attempts of a setting; zero attempts and a missing setting stand for three. -/
def attemptsOf : Option RestartOnError → Nat
  | none => 3
  | some setting => if setting.attempts = 0 then 3 else setting.attempts

def restartEnabled : Option RestartOnError → Bool
  | none => false
  | some setting => setting.enabled

/-- One launch of `restartAfterCrash`. -/
structure AutomaticLaunch where
  /-- Its number since the last start by hand or the last RUNNING status. -/
  number : Nat
  /-- The setting of the server at that time. -/
  setting : Option RestartOnError
  /-- Its crash was an exit that somebody asked for. -/
  asked : Bool
  deriving DecidableEq, Repr

/-- An instance with its automatic launches. -/
structure Watched where
  server : ServerInstance
  /-- Automatic launches since the last start by hand or the last RUNNING status. -/
  automatic : Nat := 0
  /-- The calls there were at the last start by hand, RUNNING status or change of the setting. -/
  mark : Nat := 0
  /-- The setting changed since the last start by hand or RUNNING status. -/
  changed : Bool := false
  /-- The runtimes a stop, a kill, a restart or a shutdown found running. -/
  asked : List Nat := []
  /-- The crash restarts scheduled for the exit of such a runtime. -/
  askedRestarts : List Nat := []
  launches : List AutomaticLaunch := []
  deriving DecidableEq, Repr

/-- The step starts the server by hand or makes its status RUNNING. -/
def resets (cfg : InstanceConfig) (s : ServerInstance) : Event → Bool
  | .start | .restartDelayOver _ => !s.isRunning
  | .line _ text => cfg.detection.detect text == some .running
  | .exits _ _ (some half) => cfg.detection.detect half == some .running
  | _ => false

/-- The step changes the setting. -/
def changes (s : ServerInstance) : Event → Bool
  | .setRestartOnError setting => setting != s.restartOnError
  | _ => false

/-- The crash restart that the step launches. -/
def restarted (held : Option ServerLockKind) (s : ServerInstance) (e : Event) : Option Nat :=
  match e with
  | .crashDelayOver i => if s.opensLaunch held e then some i else none
  | _ => none

/-- The runtime that the step asks to exit. -/
def asks (s : ServerInstance) : Event → List Nat
  | .stop | .restart | .stopForShutdown | .kill =>
      if s.isRunning then s.serverRuntime.toList else []
  | _ => []

/-- The crash restart that the step schedules for an exit that was asked for. -/
def schedulesAsked (w : Watched) (server : ServerInstance) : Event → List Nat
  | .exits r _ _ =>
      if w.asked.contains r && w.server.calls.length < server.calls.length then
        [w.server.calls.length]
      else []
  | _ => []

namespace Watched

/-- What is noted when the instance goes on to `server`. -/
def note (cfg : InstanceConfig) (held : Option ServerLockKind) (w : Watched) (e : Event)
    (server : ServerInstance) : Watched where
  server := server
  automatic :=
    if resets cfg w.server e then 0
    else w.automatic + (restarted held w.server e).toList.length
  mark := if resets cfg w.server e || changes w.server e then w.server.calls.length else w.mark
  changed := !resets cfg w.server e && (w.changed || changes w.server e)
  asked := w.asked ++ asks w.server e
  askedRestarts := w.askedRestarts ++ schedulesAsked w server e
  launches := w.launches ++ (restarted held w.server e).toList.map fun i =>
    ⟨w.automatic + 1, w.server.restartOnError, w.askedRestarts.contains i⟩

def step (cfg : InstanceConfig) (w : Watched) (e : LockedEvent) : Option Watched :=
  (Instance.step cfg e.1 w.server e.2).map (w.note cfg e.1 e.2)

end Watched

/-- The watched runs of a server that is down. -/
def watchedMachine (cfg : InstanceConfig) : Machine Watched LockedEvent where
  init w := ∃ s, (machine cfg).init s ∧ w = { server := s }
  step := Watched.step cfg

/-- No automatic launch is beyond the attempts of its setting, comes while restarts are off, or
follows an exit that was asked for; and while the setting stays, so does the bound. -/
structure RestartsBounded (w : Watched) : Prop where
  launches : ∀ l ∈ w.launches,
    l.number ≤ attemptsOf l.setting ∧ restartEnabled l.setting = true ∧ l.asked = false
  automatic : w.changed = false → w.automatic ≤ attemptsOf w.server.restartOnError

/-- A crash restart that launches was scheduled after the last start by hand, RUNNING status
and change of the setting; and a launch begins while no stop is in flight and no process that
was asked to exit runs. -/
def restartGuard (w : Watched) (e : LockedEvent) : Bool :=
  (restarted e.1 w.server e.2).all (w.mark ≤ ·) &&
    (!w.server.opensLaunch e.1 e.2 ||
      w.server.pendingStop.promise.isNone &&
        w.asked.all fun r => w.server.runtimes[r]? != some .running)

/-! ## The methods and the policy -/

namespace ServerInstance

section Methods

variable (s : ServerInstance) (cfg : InstanceConfig)

/-- All that `updateStatus` writes. -/
theorem updateStatus_eq (st : ServerStatus) :
    s.updateStatus st
      = { s with
          row := s.row.map fun _ => st
          crashRestarts := if st = .running then s.crashRestarts.reset else s.crashRestarts } := by
  rw [updateStatus]
  cases h_row : s.row with
  | none => rfl
  | some current =>
    by_cases h_eq : current = st
    · subst h_eq
      simp
    · simp [h_eq]

/-- The count and the setting it is held against. -/
def restartPolicy : CrashRestartPolicy × Option RestartOnError := (s.crashRestarts, s.restartOnError)

theorem updateStatus_restartPolicy {st : ServerStatus} (h : st ≠ .running) :
    (s.updateStatus st).restartPolicy = s.restartPolicy := by
  simp [restartPolicy, updateStatus_eq, h]

@[simp] theorem launchThrew_restartPolicy (caller : Caller) :
    (s.launchThrew caller).restartPolicy = s.restartPolicy := by
  cases caller with
  | start => rfl
  | restartAfterCrash =>
    simp only [launchThrew]
    split
    · rfl
    · exact updateStatus_restartPolicy s (by decide)

@[simp] theorem launch_restartPolicy (held : Option ServerLockKind) (caller : Caller) :
    (s.launch held caller).1.restartPolicy = s.restartPolicy := by
  obtain ⟨-, h_launch⟩ | ⟨-, -, h_launch⟩ | ⟨-, -, h_launch⟩ := launch_cases s held caller
  · rw [h_launch]
  · rw [h_launch]
    exact launchThrew_restartPolicy s caller
  · rw [h_launch]
    exact updateStatus_restartPolicy _ (by decide)

@[simp] theorem crashDelayOver_restartPolicy (held : Option ServerLockKind) :
    (s.crashDelayOver held).1.restartPolicy = s.restartPolicy := by
  rw [crashDelayOver]
  split
  · rfl
  · split
    · rfl
    · exact launch_restartPolicy s held _

@[simp] theorem stop_restartPolicy : s.stop.1.restartPolicy = s.restartPolicy := by
  rw [stop]
  split
  · rfl
  · split
    · rfl
    · exact updateStatus_restartPolicy { s with exitRequested := true } (by decide)

@[simp] theorem restart_restartPolicy : s.restart.1.restartPolicy = s.restartPolicy := by
  obtain ⟨-, h_restart⟩ | ⟨-, c, -, h_restart⟩ := restart_cases s
  · rw [h_restart]
  · rw [h_restart]
    exact stop_restartPolicy s

@[simp] theorem kill_restartPolicy : s.kill.restartPolicy = s.restartPolicy := by
  rw [kill]
  split <;> rfl

/-- A start by hand resets the count, whatever becomes of its launch. -/
theorem start_restartPolicy (held : Option ServerLockKind) :
    (s.start held).1.restartPolicy
      = if s.isRunning then s.restartPolicy else ({ attempts := 0 }, s.restartOnError) := by
  rw [start]
  split
  · rfl
  · exact launch_restartPolicy _ held .start

/-- A line resets the count when it says RUNNING. -/
theorem onLine_restartPolicy (line : String) :
    (s.onLine cfg line).restartPolicy
      = if cfg.detection.detect line = some .running then ({ attempts := 0 }, s.restartOnError)
        else s.restartPolicy := by
  rw [onLine]
  cases h : cfg.detection.detect line with
  | none => rfl
  | some st =>
    by_cases h_run : st = .running
    · subst h_run
      simp [restartPolicy, updateStatus_eq, CrashRestartPolicy.reset]
    · rw [if_neg (by simpa using h_run)]
      exact updateStatus_restartPolicy s h_run

/-- A call that goes through `start()` does not end at the pause of a crash. -/
theorem start_ne_crashDelay (held : Option ServerLockKind) : (s.start held).2 ≠ .crashDelay := by
  rw [start]
  split
  · simp
  · obtain ⟨-, h_launch⟩ | ⟨-, -, h_launch⟩ | ⟨-, -, h_launch⟩ :=
      launch_cases { s with crashRestarts := s.crashRestarts.reset } held .start
    all_goals
      rw [h_launch]
      simp

theorem restart_ne_crashDelay : s.restart.2 ≠ .crashDelay := by
  rw [restart]
  split
  · split <;> simp
  · simp

/-- A crash restart launches exactly when its step opens a launch. -/
theorem crashDelayOver_eq (held : Option ServerLockKind) (i : Nat) :
    (s.opensLaunch held (.crashDelayOver i) = true ∧
      s.crashDelayOver held
        = (({ s with exitRequested := false }).updateStatus .starting,
            .launchCommand .restartAfterCrash)) ∨
    (s.opensLaunch held (.crashDelayOver i) = false ∧ (s.crashDelayOver held).2 = .done ∧
      (s.crashDelayOver held).1.exitRequested = s.exitRequested ∧
      (s.crashDelayOver held).1.pendingStop = s.pendingStop) := by
  by_cases h_off : (s.disposed || s.shuttingDown || s.isRunning) = true
  · have h_eq : s.crashDelayOver held = (s, .done) := by simp only [crashDelayOver, h_off, if_true]
    refine .inr ⟨?_, by rw [h_eq], by rw [h_eq], by rw [h_eq]⟩
    simp only [Bool.or_eq_true] at h_off
    rcases h_off with (h_off | h_off) | h_off <;> simp [opensLaunch, h_off]
  by_cases h_row : s.row = some .crashed
  · have h_eq : s.crashDelayOver held = s.launch held .restartAfterCrash := by
      simp [crashDelayOver, h_off, h_row]
    simp only [Bool.or_eq_true, not_or, Bool.not_eq_true] at h_off
    rw [h_eq]
    obtain ⟨h_run, -⟩ | ⟨-, h_held, h_launch⟩ | ⟨h_down, h_held, h_launch⟩ :=
      launch_cases s held .restartAfterCrash
    · rw [h_off.2] at h_run
      cases h_run
    · rw [h_launch]
      exact .inr ⟨by simp [opensLaunch, h_held], rfl, by simp [launchThrew, h_off.2, updateStatus_eq],
        by simp [launchThrew, h_off.2, updateStatus_eq]⟩
    · exact .inl ⟨by simp [opensLaunch, h_off.1.1, h_off.1.2, h_row, h_down, h_held], h_launch⟩
  · have h_eq : s.crashDelayOver held = (s, .done) := by simp [crashDelayOver, h_off, h_row]
    exact .inr ⟨by simp [opensLaunch, h_row], by rw [h_eq], by rw [h_eq], by rw [h_eq]⟩

/-- A crash schedules a restart when the setting is on, nobody asked for the exit and the count is
below the attempts. -/
theorem onCrash_cases :
    s.onCrash = s ∨
    ((s.shuttingDown || s.exitRequested) = false ∧ restartEnabled s.restartOnError = true ∧
      s.crashRestarts.attempts + 1 ≤ attemptsOf s.restartOnError ∧
      s.onCrash = { s with
        crashRestarts := { attempts := s.crashRestarts.attempts + 1 }
        calls := s.calls ++ [.crashDelay] }) := by
  -- Without a restart the verdict leaves the policy as it is.
  have h_kept : ∀ verdict, verdict ≠ .restart →
      s.crashRestarts.onCrash s.restartOnError (s.shuttingDown || s.exitRequested)
        = (verdict, s.crashRestarts) → s.onCrash = s := by
    intro verdict h_not h_verdict
    rw [onCrash, h_verdict]
    cases verdict with
    | restart => exact absurd rfl h_not
    | exhausted => rfl
    | off => rfl
  cases h_setting : s.restartOnError with
  | none =>
    exact .inl (h_kept .off (by decide) (by rw [h_setting, CrashRestartPolicy.onCrash]))
  | some setting =>
    by_cases h_off : (!setting.enabled || (s.shuttingDown || s.exitRequested)) = true
    · exact .inl (h_kept .off (by decide)
        (by simp only [h_setting, CrashRestartPolicy.onCrash, h_off, if_true]))
    by_cases h_more : s.crashRestarts.attempts ≥ attemptsOf (some setting)
    · exact .inl (h_kept .exhausted (by decide)
        (by
          rw [attemptsOf] at h_more
          simp only [h_setting, CrashRestartPolicy.onCrash, if_neg h_off, if_pos h_more]))
    · have h_within := Nat.lt_of_not_le h_more
      rw [attemptsOf] at h_more
      have h_verdict : s.crashRestarts.onCrash s.restartOnError (s.shuttingDown || s.exitRequested)
          = (.restart, { attempts := s.crashRestarts.attempts + 1 }) := by
        simp only [h_setting, CrashRestartPolicy.onCrash, if_neg h_off, if_neg h_more]
      rw [Bool.or_eq_true, not_or, Bool.not_eq_true', Bool.not_eq_false, Bool.not_eq_true] at h_off
      refine .inr ⟨h_off.2, h_off.1, h_within, ?_⟩
      rw [onCrash, h_verdict, ← h_setting]

end Methods

end ServerInstance

/-! ## Counting -/

/-- The crash restarts that wait, from the call `mark` on. -/
def delaysFrom (mark : Nat) (calls : List Call) : Nat := (calls.drop mark).count .crashDelay

attribute [local simp] delaysFrom in
theorem delaysFrom_of_length_le {mark : Nat} {calls : List Call} (h : calls.length ≤ mark) :
    delaysFrom mark calls = 0 := by
  rw [delaysFrom, List.drop_eq_nil_of_le h]
  rfl

theorem delaysFrom_append {mark : Nat} {calls : List Call} (h : mark ≤ calls.length) (c : Call) :
    delaysFrom mark (calls ++ [c]) = delaysFrom mark calls + [c].count .crashDelay := by
  rw [delaysFrom, List.drop_append_of_le_length h, List.count_append]
  rfl

theorem delaysFrom_push {mark : Nat} {calls : List Call} (h : mark ≤ calls.length) {c : Call}
    (h_c : c ≠ .crashDelay) : delaysFrom mark (calls ++ [c]) = delaysFrom mark calls := by
  have h_none : [c].count Call.crashDelay = 0 := by simp [h_c]
  rw [delaysFrom_append h, h_none, Nat.add_zero]

theorem delaysFrom_set_le (mark i : Nat) (calls : List Call) {c : Call} (h_c : c ≠ .crashDelay) :
    delaysFrom mark (calls.set i c) ≤ delaysFrom mark calls := by
  rw [delaysFrom, List.drop_set]
  split
  · exact Nat.le_refl _
  · by_cases h_lt : i - mark < (calls.drop mark).length
    · rw [List.count_set h_lt]
      simp [delaysFrom, h_c]
    · rw [List.set_eq_of_length_le (Nat.le_of_not_lt h_lt)]
      exact Nat.le_refl _

/-- A restart that goes on waits no longer. -/
theorem delaysFrom_set_lt {mark i : Nat} {calls : List Call} {c : Call} (h_c : c ≠ .crashDelay)
    (h_mark : mark ≤ i) (h_at : calls[i]? = some .crashDelay) :
    delaysFrom mark (calls.set i c) + 1 = delaysFrom mark calls := by
  have h_get : (calls.drop mark)[i - mark]? = some .crashDelay := by
    rw [List.getElem?_drop, Nat.add_sub_cancel' h_mark, h_at]
  obtain ⟨h_lt, h_elem⟩ := List.getElem?_eq_some_iff.mp h_get
  have h_pos : 0 < (calls.drop mark).count .crashDelay :=
    List.count_pos_iff.mpr (List.mem_of_getElem? h_get)
  rw [delaysFrom, List.drop_set, if_neg (Nat.not_lt.mpr h_mark), List.count_set h_lt, h_elem]
  simp only [delaysFrom, h_c, beq_self_eq_true, if_true, beq_iff_eq, if_false]
  omega

/-- Launches and waiting restarts since the mark are within the policy's count, and the count is
within the attempts as long as a restart waits or the setting stays. -/
structure Budget (s : ServerInstance) (automatic mark : Nat) (changed : Bool) : Prop where
  mark_le : mark ≤ s.calls.length
  count : automatic + delaysFrom mark s.calls ≤ s.crashRestarts.attempts
  waiting : 0 < delaysFrom mark s.calls →
    s.crashRestarts.attempts ≤ attemptsOf s.restartOnError ∧ restartEnabled s.restartOnError = true
  unchanged : changed = false → s.crashRestarts.attempts ≤ attemptsOf s.restartOnError

namespace Budget

variable {s s' : ServerInstance} {automatic mark : Nat} {changed : Bool}

/-- Nothing is counted and no restart is scheduled. -/
theorem calm (h : Budget s automatic mark changed) (policy : s'.restartPolicy = s.restartPolicy)
    (length : s.calls.length ≤ s'.calls.length)
    (delays : delaysFrom mark s'.calls ≤ delaysFrom mark s.calls) :
    Budget s' automatic mark changed := by
  obtain ⟨h_restarts, h_setting⟩ := Prod.mk.inj policy
  refine ⟨Nat.le_trans h.mark_le length, ?_, ?_, ?_⟩
  · rw [h_restarts]
    exact Nat.le_trans (Nat.add_le_add_left delays _) h.count
  · intro h_pos
    rw [h_restarts, h_setting]
    exact h.waiting (Nat.lt_of_lt_of_le h_pos delays)
  · rw [h_restarts, h_setting]
    exact h.unchanged

/-- The count starts again, and what waits is behind the mark. -/
theorem reset (setting : Option RestartOnError)
    (policy : s'.restartPolicy = ({ attempts := 0 }, setting)) (h_mark : mark ≤ s'.calls.length)
    (delays : delaysFrom mark s'.calls = 0) : Budget s' 0 mark false := by
  obtain ⟨h_restarts, -⟩ := Prod.mk.inj policy
  refine ⟨h_mark, ?_, ?_, ?_⟩
  · exact Nat.le_of_eq (by rw [delays, h_restarts])
  · intro h_pos
    rw [delays] at h_pos
    exact absurd h_pos (Nat.lt_irrefl 0)
  · intro _
    rw [h_restarts]
    exact Nat.zero_le _

/-- The policy is asked: a restart is counted when it is scheduled. -/
theorem crash (h : Budget s automatic mark changed) : Budget s.onCrash automatic mark changed := by
  obtain h_same | ⟨-, h_enabled, h_within, h_eq⟩ := onCrash_cases s
  · rw [h_same]
    exact h
  · have h_one : [Call.crashDelay].count Call.crashDelay = 1 := rfl
    have h_count := h.count
    rw [h_eq]
    refine ⟨?_, ?_, fun _ => ⟨h_within, h_enabled⟩, fun _ => h_within⟩
    · rw [List.length_append]
      exact Nat.le_trans h.mark_le (Nat.le_add_right _ _)
    · show automatic + delaysFrom mark (s.calls ++ [.crashDelay]) ≤ s.crashRestarts.attempts + 1
      rw [delaysFrom_append h.mark_le, h_one]
      omega

/-- The exit of a process whose last line left the count in order. -/
theorem close {cfg : InstanceConfig} {half : Option String}
    (h : Budget (s.closeConsole cfg half) automatic mark changed) (code : Option Int) :
    Budget (s.onClose cfg code half) automatic mark changed := by
  have h_status : ∀ st, st ≠ ServerStatus.running →
      Budget ((s.closeConsole cfg half).updateStatus st) automatic mark changed := by
    intro st h_st
    refine h.calm (updateStatus_restartPolicy _ h_st) ?_ ?_
    · exact Nat.le_of_eq (by rw [updateStatus_calls])
    · exact Nat.le_of_eq (by rw [updateStatus_calls])
  cases h_crash : isCrashCode code with
  | false =>
    have h_stopped := h_status .stopped (by decide)
    exact ⟨by simpa [onClose, h_crash] using h_stopped.mark_le,
      by simpa [onClose, h_crash] using h_stopped.count,
      by simpa [onClose, h_crash] using h_stopped.waiting,
      by simpa [onClose, h_crash] using h_stopped.unchanged⟩
  | true =>
    have h_crashed := (h_status .crashed (by decide)).crash
    exact ⟨by simpa [onClose, h_crash] using h_crashed.mark_le,
      by simpa [onClose, h_crash] using h_crashed.count,
      by simpa [onClose, h_crash] using h_crashed.waiting,
      by simpa [onClose, h_crash] using h_crashed.unchanged⟩

end Budget

/-! ## One step of the count -/

section Steps

variable {cfg : InstanceConfig} {held : Option ServerLockKind} {s s' : ServerInstance} {e : Event}
  {automatic mark : Nat} {changed : Bool}

/-- A step that neither resets, nor changes the setting, nor launches a crash restart. -/
theorem Budget.kept (h : Budget s automatic mark changed) (h_step : step cfg held s e = some s')
    (h_resets : resets cfg s e = false) (h_changes : changes s e = false)
    (h_restarted : restarted held s e = none) : Budget s' automatic mark changed := by
  have h_append : ∀ p : ServerInstance × Call, p.1.restartPolicy = s.restartPolicy →
      p.2 ≠ .crashDelay → p.1.calls = s.calls → Budget (push p) automatic mark changed := by
    intro p h_policy h_c h_calls
    have h_pushed : (push p).calls = s.calls ++ [p.2] := congrArg (· ++ [p.2]) h_calls
    refine h.calm h_policy ?_ ?_
    · rw [h_pushed, List.length_append]
      exact Nat.le_add_right _ _
    · exact Nat.le_of_eq (by rw [h_pushed, delaysFrom_push h.mark_le h_c])
  have h_resume : ∀ (i : Nat) (p : ServerInstance × Call), p.1.restartPolicy = s.restartPolicy →
      p.2 ≠ .crashDelay → p.1.calls = s.calls → Budget (resume i p) automatic mark changed := by
    intro i p h_policy h_c h_calls
    have h_resumed : (resume i p).calls = s.calls.set i p.2 := congrArg (·.set i p.2) h_calls
    refine h.calm h_policy ?_ ?_
    · exact Nat.le_of_eq (by rw [h_resumed, List.length_set])
    · rw [h_resumed]
      exact delaysFrom_set_le mark i s.calls h_c
  have h_store : ∀ (i : Nat) (caller : Caller) (phase : RuntimePhase),
      Budget (s.storeRuntime i caller phase) automatic mark changed := by
    intro i caller phase
    refine h.calm rfl ?_ ?_
    · exact Nat.le_of_eq (by rw [storeRuntime, List.length_set])
    · exact delaysFrom_set_le mark i s.calls (by simp)
  have h_quiet : ∀ {t : ServerInstance}, t.restartPolicy = s.restartPolicy → t.calls = s.calls →
      Budget t automatic mark changed := by
    intro t h_policy h_calls
    exact h.calm h_policy (Nat.le_of_eq (congrArg List.length h_calls.symm))
      (Nat.le_of_eq (congrArg (delaysFrom mark) h_calls))
  cases e with
  | start =>
    cases h_step
    have h_run : s.isRunning = true := by simpa [resets] using h_resets
    exact h_append (s.start held) (by rw [start_restartPolicy, if_pos h_run])
      (start_ne_crashDelay s held) (start_calls s held)
  | restart =>
    cases h_step
    refine h_append s.restart (restart_restartPolicy s) (restart_ne_crashDelay s) ?_
    obtain ⟨-, h_eq⟩ | ⟨-, c, -, h_eq⟩ := restart_cases s <;> simp [h_eq]
  | stop =>
    cases h_step
    exact h_quiet (stop_restartPolicy s) (stop_calls s)
  | stopForShutdown =>
    cases h_step
    exact h_quiet (stop_restartPolicy { s with shuttingDown := true })
      (stop_calls { s with shuttingDown := true })
  | kill =>
    cases h_step
    refine h_quiet (kill_restartPolicy s) ?_
    rw [kill]
    split <;> rfl
  | dispose =>
    cases h_step
    exact h_quiet rfl rfl
  | restartStopped i =>
    simp only [Instance.step] at h_step
    split at h_step
    · split at h_step
      · cases h_step
        exact h_resume i (s, .restartDelay) rfl (by simp) rfl
      · cases h_step
    · cases h_step
  | restartDelayOver i =>
    simp only [Instance.step] at h_step
    split at h_step
    · cases h_step
      have h_run : s.isRunning = true := by simpa [resets] using h_resets
      exact h_resume i (s.start held) (by rw [start_restartPolicy, if_pos h_run])
        (start_ne_crashDelay s held) (start_calls s held)
    · cases h_step
  | crashDelayOver i =>
    simp only [Instance.step] at h_step
    split at h_step
    · cases h_step
      have h_closed : s.opensLaunch held (.crashDelayOver i) = false := by
        simpa [restarted] using h_restarted
      obtain ⟨h_opens, -⟩ | ⟨-, h_done, -⟩ := crashDelayOver_eq s held i
      · rw [h_closed] at h_opens
        cases h_opens
      · exact h_resume i (s.crashDelayOver held) (crashDelayOver_restartPolicy s held)
          (by rw [h_done]; simp) (crashDelayOver_calls s held)
    · cases h_step
  | nativeReady i spawned =>
    simp only [Instance.step] at h_step
    split at h_step
    · split at h_step
      · cases h_step
        exact h_store i _ _
      · cases h_step
    · cases h_step
  | dockerReady i =>
    simp only [Instance.step] at h_step
    split at h_step
    · split at h_step
      · cases h_step
        exact h_store i _ _
      · cases h_step
    · cases h_step
  | commandThrew i =>
    simp only [Instance.step] at h_step
    split at h_step
    · cases h_step
      exact h_resume i (s.launchThrew _, .done) (launchThrew_restartPolicy s _) (by simp)
        (launchThrew_calls s _)
    · cases h_step
  | containerUp i =>
    simp only [Instance.step] at h_step
    split at h_step
    · split at h_step
      · cases h_step
        exact h_quiet rfl rfl
      · cases h_step
    · cases h_step
  | startReturned i =>
    simp only [Instance.step] at h_step
    split at h_step
    · split at h_step
      · cases h_step
      · cases h_step
        exact h_resume i (s, .done) rfl (by simp) rfl
    · cases h_step
  | startThrew i =>
    simp only [Instance.step] at h_step
    split at h_step
    · split at h_step
      · cases h_step
        exact h_resume i (s.launchThrew _, .done) (launchThrew_restartPolicy s _) (by simp)
          (launchThrew_calls s _)
      · cases h_step
    · cases h_step
  | line r text =>
    simp only [Instance.step] at h_step
    split at h_step
    · cases h_step
      have h_text : cfg.detection.detect text ≠ some .running := by simpa [resets] using h_resets
      exact h_quiet (by rw [onLine_restartPolicy, if_neg h_text]) (onLine_calls s cfg text)
    · cases h_step
  | exits r code half =>
    simp only [Instance.step] at h_step
    split at h_step
    · cases h_step
      refine Budget.close (h_quiet ?_ (closeConsole_calls
        { s with runtimes := s.runtimes.set r .exited } cfg half)) code
      cases half with
      | none => rfl
      | some half =>
        have h_half : cfg.detection.detect half ≠ some .running := by simpa [resets] using h_resets
        rw [closeConsole, onLine_restartPolicy, if_neg h_half]
        rfl
    · cases h_step
  | stopTimer t =>
    obtain ⟨p, -, rfl⟩ := Option.map_eq_some_iff.mp h_step
    exact h_quiet rfl rfl
  | stopSettled p =>
    obtain ⟨p, -, rfl⟩ := Option.map_eq_some_iff.mp h_step
    exact h_quiet rfl rfl
  | removeRow =>
    cases h_step
    exact h_quiet rfl rfl
  | setRestartOnError setting =>
    cases h_step
    have h_same : setting = s.restartOnError := by simpa [changes] using h_changes
    subst h_same
    exact h_quiet rfl rfl

/-- A start by hand and a RUNNING status begin a new count. -/
theorem Budget.of_resets (h_step : step cfg held s e = some s') (h_resets : resets cfg s e = true) :
    Budget s' 0 s.calls.length false := by
  cases e with
  | start =>
    cases h_step
    have h_run : s.isRunning = false := by simpa [resets] using h_resets
    have h_policy : (push (s.start held)).restartPolicy = ({ attempts := 0 }, s.restartOnError) := by
      show (s.start held).1.restartPolicy = _
      rw [start_restartPolicy, h_run]
      rfl
    refine .reset s.restartOnError h_policy ?_ ?_
    · simp [push]
    · show delaysFrom s.calls.length ((s.start held).1.calls ++ [(s.start held).2]) = 0
      rw [start_calls, delaysFrom_push (Nat.le_refl _) (start_ne_crashDelay s held)]
      exact delaysFrom_of_length_le (Nat.le_refl _)
  | restartDelayOver i =>
    simp only [Instance.step] at h_step
    split at h_step
    · cases h_step
      have h_run : s.isRunning = false := by simpa [resets] using h_resets
      have h_policy :
          (resume i (s.start held)).restartPolicy = ({ attempts := 0 }, s.restartOnError) := by
        show (s.start held).1.restartPolicy = _
        rw [start_restartPolicy, h_run]
        rfl
      refine .reset s.restartOnError h_policy ?_ ?_
      · simp [resume]
      · exact delaysFrom_of_length_le (by simp [resume])
    · cases h_step
  | line r text =>
    simp only [Instance.step] at h_step
    split at h_step
    · cases h_step
      have h_text : cfg.detection.detect text = some .running := by simpa [resets] using h_resets
      refine .reset s.restartOnError ?_ ?_ ?_
      · rw [onLine_restartPolicy, if_pos h_text]
      · exact Nat.le_of_eq (by rw [onLine_calls])
      · rw [onLine_calls]
        exact delaysFrom_of_length_le (Nat.le_refl _)
    · cases h_step
  | exits r code half =>
    simp only [Instance.step] at h_step
    split at h_step
    · cases h_step
      cases half with
      | none => cases h_resets
      | some half =>
        -- The last line resets, then the exit may schedule a restart.
        have h_half : cfg.detection.detect half = some .running := by simpa [resets] using h_resets
        refine Budget.close (.reset s.restartOnError ?_ ?_ ?_) code
        · rw [closeConsole, onLine_restartPolicy, if_pos h_half]
        · exact Nat.le_of_eq (by rw [closeConsole_calls])
        · rw [closeConsole_calls]
          exact delaysFrom_of_length_le (Nat.le_refl _)
    · cases h_step
  | restart => cases h_resets
  | stop => cases h_resets
  | stopForShutdown => cases h_resets
  | kill => cases h_resets
  | dispose => cases h_resets
  | restartStopped i => cases h_resets
  | crashDelayOver i => cases h_resets
  | nativeReady i spawned => cases h_resets
  | dockerReady i => cases h_resets
  | commandThrew i => cases h_resets
  | containerUp i => cases h_resets
  | startReturned i => cases h_resets
  | startThrew i => cases h_resets
  | stopTimer t => cases h_resets
  | stopSettled p => cases h_resets
  | removeRow => cases h_resets
  | setRestartOnError setting => cases h_resets

/-- Behind a change of the setting no restart waits. -/
theorem Budget.of_changes (h : Budget s automatic mark changed) (h_step : step cfg held s e = some s')
    (h_changes : changes s e = true) : Budget s' automatic s.calls.length true := by
  cases e with
  | setRestartOnError setting =>
    cases h_step
    have h_none : delaysFrom s.calls.length s.calls = 0 := delaysFrom_of_length_le (Nat.le_refl _)
    refine ⟨Nat.le_refl _, ?_, ?_, ?_⟩
    · show automatic + delaysFrom s.calls.length s.calls ≤ s.crashRestarts.attempts
      rw [h_none]
      exact Nat.le_trans (Nat.add_le_add_left (Nat.zero_le _) _) h.count
    · intro h_pos
      rw [show delaysFrom s.calls.length s.calls = 0 from h_none] at h_pos
      exact absurd h_pos (Nat.lt_irrefl 0)
    · intro h_false
      cases h_false
  | _ => cases h_changes

/-- A restart from behind the mark launches: it is one of the counted ones. -/
theorem Budget.of_restarted (h : Budget s automatic mark changed)
    (h_step : step cfg held s e = some s') {i : Nat} (h_restarted : restarted held s e = some i)
    (h_mark : mark ≤ i) :
    Budget s' (automatic + 1) mark changed ∧ automatic + 1 ≤ attemptsOf s.restartOnError ∧
      restartEnabled s.restartOnError = true := by
  cases e with
  | crashDelayOver j =>
    simp only [restarted] at h_restarted
    split at h_restarted
    · rename_i h_opens
      cases h_restarted
      simp only [Instance.step] at h_step
      split at h_step
      · rename_i h_at
        cases h_step
        obtain ⟨-, h_eq⟩ | ⟨h_closed, -⟩ := crashDelayOver_eq s held i
        · have h_get : s.calls[i]? = some .crashDelay := by
            have h_lt : i < s.calls.length := callAt_lt (by rw [h_at]; simp)
            have h_elem : s.calls[i]? = some s.calls[i] := List.getElem?_eq_getElem h_lt
            rw [callAt, h_elem] at h_at
            rw [h_elem]
            exact congrArg some h_at
          have h_less := delaysFrom_set_lt (c := .launchCommand .restartAfterCrash) (by simp)
            h_mark h_get
          have h_count := h.count
          obtain ⟨h_within, h_enabled⟩ := h.waiting (by omega)
          rw [h_eq]
          have h_policy :
              (resume i ((({ s with exitRequested := false }).updateStatus .starting),
                Call.launchCommand .restartAfterCrash)).restartPolicy = s.restartPolicy :=
            updateStatus_restartPolicy { s with exitRequested := false } (by decide)
          obtain ⟨h_restarts, h_setting⟩ := Prod.mk.inj h_policy
          have h_calls :
              (resume i ((({ s with exitRequested := false }).updateStatus .starting),
                Call.launchCommand .restartAfterCrash)).calls
                = s.calls.set i (.launchCommand .restartAfterCrash) := by
            simp [resume]
          refine ⟨⟨?_, ?_, ?_, ?_⟩, by omega, h_enabled⟩
          · rw [h_calls, List.length_set]
            exact h.mark_le
          · rw [h_calls, h_restarts]
            omega
          · intro _
            rw [h_restarts, h_setting]
            exact ⟨h_within, h_enabled⟩
          · rw [h_restarts, h_setting]
            exact h.unchanged
        · rw [h_opens] at h_closed
          cases h_closed
      · cases h_step
    · cases h_restarted
  | _ => cases h_restarted

end Steps

/-! ## Exits that were asked for -/

/-- What a request to exit leaves stays: the flag, and behind a new pending stop the flag. -/
def FlagKept (s t : ServerInstance) : Prop :=
  (s.exitRequested = true → t.exitRequested = true) ∧
    (t.pendingStop.promise ≠ none → s.pendingStop.promise ≠ none ∨ t.exitRequested = true)

theorem FlagKept.of_eq {s t : ServerInstance} (h_flag : t.exitRequested = s.exitRequested)
    (h_promise : t.pendingStop.promise = s.pendingStop.promise) : FlagKept s t := by
  refine ⟨fun h => ?_, fun h => Or.inl ?_⟩
  · rw [h_flag]
    exact h
  · rw [← h_promise]
    exact h

theorem PendingStop.exited_promise (p : PendingStop) : p.exited.promise = p.promise := by
  rw [exited]
  split
  · rfl
  · rename_i i h_settle
    rw [finish, clearTimer]
    split <;> split <;> rfl

theorem PendingStop.fire_promise {p q : PendingStop} {t : Nat} (h : p.fire id t = some q) :
    q.promise = p.promise := by
  simp only [fire] at h
  split at h
  · cases h
  · split at h <;> cases h <;> rfl
  · cases h
    rw [finish]
    split <;> rfl

namespace ServerInstance

section Flags

variable (s : ServerInstance) (cfg : InstanceConfig)

theorem launchThrew_flagKept (caller : Caller) : FlagKept s (s.launchThrew caller) := by
  cases caller with
  | start => exact .of_eq rfl rfl
  | restartAfterCrash =>
    rw [launchThrew]
    split
    · exact .of_eq rfl rfl
    · rw [updateStatus_eq]
      exact .of_eq rfl rfl

/-- A stop of a running server leaves the flag, unless an older stop is in flight. -/
theorem stop_flagKept :
    FlagKept s s.stop.1 ∧
      (s.isRunning = true → s.stop.1.exitRequested = true ∨ s.pendingStop.promise ≠ none) := by
  rw [stop]
  split
  · rename_i h_down
    refine ⟨.of_eq rfl rfl, fun h_run => ?_⟩
    simp [h_run] at h_down
  · split
    · rename_i h_promise
      refine ⟨.of_eq rfl rfl, fun _ => Or.inr ?_⟩
      rw [h_promise]
      simp
    · have h_flag : (({ s with exitRequested := true }).updateStatus .stopping).exitRequested = true := by
        rw [updateStatus_eq]
      exact ⟨⟨fun _ => h_flag, fun _ => Or.inr h_flag⟩, fun _ => Or.inl h_flag⟩

theorem restart_flagKept :
    FlagKept s s.restart.1 ∧
      (s.isRunning = true → s.restart.1.exitRequested = true ∨ s.pendingStop.promise ≠ none) := by
  obtain ⟨h_down, h_eq⟩ | ⟨-, c, -, h_eq⟩ := restart_cases s
  · rw [h_eq]
    refine ⟨.of_eq rfl rfl, fun h_run => ?_⟩
    rw [h_down] at h_run
    cases h_run
  · rw [h_eq]
    exact stop_flagKept s

theorem kill_flagKept :
    FlagKept s s.kill ∧ (s.isRunning = true → s.kill.exitRequested = true) := by
  rw [kill]
  split
  · exact ⟨⟨fun _ => rfl, fun _ => Or.inr rfl⟩, fun _ => rfl⟩
  · rename_i h_down
    exact ⟨.of_eq rfl rfl, fun h_run => absurd h_run h_down⟩

/-- `start()` takes the flag back only when it goes into a launch. -/
theorem start_flagKept (held : Option ServerLockKind)
    (h : (!s.isRunning && held != some .restore) = false) : FlagKept s (s.start held).1 := by
  rw [start]
  split
  · exact .of_eq rfl rfl
  · rename_i h_run
    have h_held : held = some .restore := by simpa [h_run] using h
    obtain ⟨-, h_launch⟩ | ⟨-, -, h_launch⟩ | ⟨-, h_not, -⟩ :=
      launch_cases { s with crashRestarts := s.crashRestarts.reset } held .start
    · rw [h_launch]
      exact .of_eq rfl rfl
    · rw [h_launch]
      exact launchThrew_flagKept { s with crashRestarts := s.crashRestarts.reset } .start
    · exact absurd h_held h_not

@[simp] theorem onLine_exitRequested (line : String) :
    (s.onLine cfg line).exitRequested = s.exitRequested := by
  rw [onLine]
  split
  · rw [updateStatus_eq]
  · rfl

@[simp] theorem onLine_pendingStop (line : String) :
    (s.onLine cfg line).pendingStop = s.pendingStop := by
  rw [onLine]
  split
  · rw [updateStatus_eq]
  · rfl

@[simp] theorem closeConsole_exitRequested (half : Option String) :
    (s.closeConsole cfg half).exitRequested = s.exitRequested := by
  cases half with
  | none => rfl
  | some half => exact onLine_exitRequested s cfg half

@[simp] theorem closeConsole_pendingStop (half : Option String) :
    (s.closeConsole cfg half).pendingStop = s.pendingStop := by
  cases half with
  | none => rfl
  | some half => exact onLine_pendingStop s cfg half

/-- The policy is asked with the flag the exit found. -/
theorem onCrash_of_exitRequested (h : s.exitRequested = true) : s.onCrash = s := by
  obtain h_same | ⟨h_not, -⟩ := onCrash_cases s
  · exact h_same
  · rw [h, Bool.or_true] at h_not
    cases h_not

theorem onClose_flagKept (code : Option Int) (half : Option String) :
    FlagKept s (s.onClose cfg code half) := by
  have h_crash : ∀ t : ServerInstance,
      t.onCrash.exitRequested = t.exitRequested ∧ t.onCrash.pendingStop = t.pendingStop := by
    intro t
    obtain h_same | ⟨-, -, -, h_eq⟩ := onCrash_cases t
    · rw [h_same]
      exact ⟨rfl, rfl⟩
    · rw [h_eq]
      exact ⟨rfl, rfl⟩
  cases h : isCrashCode code with
  | false =>
    refine .of_eq ?_ ?_
    · simp [onClose, h, updateStatus_eq]
    · simp [onClose, h, updateStatus_eq, PendingStop.exited_promise]
  | true =>
    refine .of_eq ?_ ?_
    · simp [onClose, h, h_crash, updateStatus_eq]
    · simp [onClose, h, h_crash, updateStatus_eq, PendingStop.exited_promise]

/-- An exit that was asked for schedules nothing. -/
theorem onClose_calls_of_exitRequested (h : s.exitRequested = true) (code : Option Int)
    (half : Option String) : (s.onClose cfg code half).calls = s.calls := by
  have h_flag : ((s.closeConsole cfg half).updateStatus .crashed).exitRequested = true := by
    rw [updateStatus_eq]
    simp [h]
  cases h_code : isCrashCode code with
  | false => simp [onClose, h_code]
  | true => simp [onClose, h_code, onCrash_of_exitRequested _ h_flag]

end Flags

end ServerInstance

section Steps

variable {cfg : InstanceConfig} {held : Option ServerLockKind} {s s' : ServerInstance} {e : Event}

/-- Only a launch that begins takes the flag back. -/
theorem flagKept_step (h : step cfg held s e = some s') (h_closed : s.opensLaunch held e = false) :
    FlagKept s s' := by
  cases e with
  | start =>
    cases h
    exact start_flagKept s held h_closed
  | restart =>
    cases h
    exact (restart_flagKept s).1
  | stop =>
    cases h
    exact (stop_flagKept s).1
  | stopForShutdown =>
    cases h
    exact (stop_flagKept { s with shuttingDown := true }).1
  | kill =>
    cases h
    exact (kill_flagKept s).1
  | dispose =>
    cases h
    exact .of_eq rfl rfl
  | removeRow =>
    cases h
    exact .of_eq rfl rfl
  | setRestartOnError setting =>
    cases h
    exact .of_eq rfl rfl
  | restartDelayOver i =>
    simp only [step] at h
    split at h
    · cases h
      exact start_flagKept s held h_closed
    · cases h
  | crashDelayOver i =>
    simp only [step] at h
    split at h
    · cases h
      obtain ⟨h_opens, -⟩ | ⟨-, -, h_flag, h_pending⟩ := crashDelayOver_eq s held i
      · rw [h_closed] at h_opens
        cases h_opens
      · exact .of_eq h_flag (congrArg PendingStop.promise h_pending)
    · cases h
  | commandThrew i =>
    simp only [step] at h
    split at h
    · cases h
      exact launchThrew_flagKept s _
    · cases h
  | line r text =>
    simp only [step] at h
    split at h
    · cases h
      exact .of_eq (onLine_exitRequested s cfg text)
        (congrArg PendingStop.promise (onLine_pendingStop s cfg text))
    · cases h
  | exits r code half =>
    simp only [step] at h
    split at h
    · cases h
      exact onClose_flagKept { s with runtimes := s.runtimes.set r .exited } cfg code half
    · cases h
  | startThrew i =>
    simp only [step] at h
    split at h
    · split at h
      · cases h
        exact launchThrew_flagKept s _
      · cases h
    · cases h
  | restartStopped i | nativeReady i spawned | dockerReady i | containerUp i | startReturned i =>
    simp only [step] at h
    split at h
    · split at h <;> cases h
      exact .of_eq rfl rfl
    · cases h
  | stopTimer t =>
    obtain ⟨p, h_fire, rfl⟩ := Option.map_eq_some_iff.mp h
    exact .of_eq rfl (PendingStop.fire_promise h_fire)
  | stopSettled i =>
    obtain ⟨p, h_final, rfl⟩ := Option.map_eq_some_iff.mp h
    rw [PendingStop.finalize] at h_final
    split at h_final
    · cases h_final
      exact ⟨fun h_flag => h_flag, fun h_promise => absurd rfl h_promise⟩
    · cases h_final

/-- A launch that begins leaves the pending stop alone. -/
theorem pendingStop_of_opensLaunch (h : step cfg held s e = some s')
    (h_opens : s.opensLaunch held e = true) : s'.pendingStop = s.pendingStop := by
  have h_start : (!s.isRunning && held != some .restore) = true →
      (s.start held).1.pendingStop = s.pendingStop := by
    intro h_free
    simp only [Bool.and_eq_true, Bool.not_eq_true', bne_iff_ne, ne_eq] at h_free
    rw [start, if_neg (by simp [h_free.1])]
    obtain ⟨-, h_launch⟩ | ⟨-, h_held, -⟩ | ⟨-, -, h_launch⟩ :=
      launch_cases { s with crashRestarts := s.crashRestarts.reset } held .start
    · rw [h_launch]
    · exact absurd h_held h_free.2
    · rw [h_launch, updateStatus_eq]
  cases e with
  | start =>
    cases h
    exact h_start h_opens
  | restartDelayOver i =>
    simp only [step] at h
    split at h
    · cases h
      exact h_start h_opens
    · cases h
  | crashDelayOver i =>
    simp only [step] at h
    split at h
    · cases h
      obtain ⟨-, h_eq⟩ | ⟨h_closed, -⟩ := crashDelayOver_eq s held i
      · rw [h_eq, updateStatus_eq]
        rfl
      · rw [h_opens] at h_closed
        cases h_closed
    · cases h
  | _ => cases h_opens

/-- A runtime that ran goes on running or is gone. -/
theorem runtimes_step (h : step cfg held s e = some s') {r : Nat}
    (h_up : s.runtimes[r]? = some .running ∨ s.runtimes[r]? = some .exited) :
    s'.runtimes[r]? = s.runtimes[r]? ∨ s'.runtimes[r]? = some .exited := by
  have h_lt : r < s.runtimes.length := by
    rcases h_up with h_up | h_up <;> exact (List.getElem?_eq_some_iff.mp h_up).1
  cases step_effect h with
  | aside i c _ _ _ runtimes _ _ => exact .inl (by rw [runtimes])
  | enter i caller _ _ _ runtimes _ => exact .inl (by rw [runtimes])
  | fails i caller _ _ _ runtimes _ _ => exact .inl (by rw [runtimes])
  | returns i caller q _ _ _ _ runtimes _ _ => exact .inl (by rw [runtimes])
  | ready i caller phase _ _ _ runtimes _ _ =>
    rw [runtimes, List.getElem?_append_left h_lt]
    exact .inl rfl
  | up i caller q _ h_phase _ runtimes _ _ =>
    rw [runtimes]
    by_cases h_eq : q = r
    · subst h_eq
      rw [h_phase] at h_up
      simp at h_up
    · exact .inl (List.getElem?_set_ne h_eq)
  | exit q i c _ _ _ runtimes _ _ =>
    rw [runtimes]
    by_cases h_eq : q = r
    · subst h_eq
      exact .inr (List.getElem?_set_self h_lt)
    · exact .inl (List.getElem?_set_ne h_eq)

/-- The runtime a request asks to exit runs, and the request leaves the flag. -/
theorem asks_step (h : step cfg held s e = some s') {r : Nat} (h_asks : r ∈ asks s e) :
    s.runtimes[r]? = some .running ∧
      (s'.exitRequested = true ∨ s.pendingStop.promise ≠ none) := by
  have h_stored : r ∈ (if s.isRunning then s.serverRuntime.toList else []) →
      s.isRunning = true ∧ s.runtimes[r]? = some .running := by
    intro h_mem
    split at h_mem
    · rename_i h_run
      refine ⟨h_run, ?_⟩
      have h_server : s.serverRuntime = some r := by simpa using h_mem
      simpa [isRunning, h_server] using h_run
    · cases h_mem
  cases e with
  | stop =>
    cases h
    obtain ⟨h_run, h_phase⟩ := h_stored h_asks
    exact ⟨h_phase, (stop_flagKept s).2 h_run⟩
  | restart =>
    cases h
    obtain ⟨h_run, h_phase⟩ := h_stored h_asks
    exact ⟨h_phase, (restart_flagKept s).2 h_run⟩
  | stopForShutdown =>
    cases h
    obtain ⟨h_run, h_phase⟩ := h_stored h_asks
    exact ⟨h_phase, (stop_flagKept { s with shuttingDown := true }).2 h_run⟩
  | kill =>
    cases h
    obtain ⟨h_run, h_phase⟩ := h_stored h_asks
    exact ⟨h_phase, Or.inl ((kill_flagKept s).2 h_run)⟩
  | _ => cases h_asks

end Steps

/-- While a runtime that was asked to exit runs, and while a stop is in flight, the flag is up. -/
structure AskedInv (s : ServerInstance) (asked : List Nat) : Prop where
  up : ∀ r ∈ asked, s.runtimes[r]? = some .running ∨ s.runtimes[r]? = some .exited
  flag : ∀ r ∈ asked, s.runtimes[r]? = some .running → s.exitRequested = true
  stopping : s.pendingStop.promise ≠ none → s.exitRequested = true

section Steps

variable {cfg : InstanceConfig} {held : Option ServerLockKind} {s s' : ServerInstance} {e : Event}
  {asked : List Nat}

theorem asks_of_opensLaunch (h : s.opensLaunch held e = true) : asks s e = [] := by
  cases e with
  | start => rfl
  | restartDelayOver i => rfl
  | crashDelayOver i => rfl
  | _ => cases h

theorem AskedInv.step (h : AskedInv s asked) (h_step : Instance.step cfg held s e = some s')
    (h_guard : s.opensLaunch held e = true → s.pendingStop.promise = none ∧
      ∀ r ∈ asked, s.runtimes[r]? ≠ some .running) : AskedInv s' (asked ++ asks s e) := by
  have h_up : ∀ r ∈ asked ++ asks s e,
      s.runtimes[r]? = some .running ∨ s.runtimes[r]? = some .exited := by
    intro r h_mem
    rcases List.mem_append.mp h_mem with h_mem | h_mem
    · exact h.up r h_mem
    · exact Or.inl (asks_step h_step h_mem).1
  have h_up' : ∀ r ∈ asked ++ asks s e,
      s'.runtimes[r]? = some .running ∨ s'.runtimes[r]? = some .exited := by
    intro r h_mem
    rcases runtimes_step h_step (h_up r h_mem) with h_same | h_gone
    · rw [h_same]
      exact h_up r h_mem
    · exact Or.inr h_gone
  have h_running : ∀ r ∈ asked ++ asks s e, s'.runtimes[r]? = some .running →
      s.runtimes[r]? = some .running := by
    intro r h_mem h_run
    rcases runtimes_step h_step (h_up r h_mem) with h_same | h_gone
    · rw [← h_same]
      exact h_run
    · rw [h_gone] at h_run
      cases h_run
  cases h_opens : s.opensLaunch held e with
  | true =>
    obtain ⟨h_promise, h_none⟩ := h_guard h_opens
    refine ⟨h_up', fun r h_mem h_run => ?_, fun h_pending => ?_⟩
    · have h_old := h_running r h_mem h_run
      rw [asks_of_opensLaunch h_opens, List.append_nil] at h_mem
      exact absurd h_old (h_none r h_mem)
    · rw [pendingStop_of_opensLaunch h_step h_opens] at h_pending
      exact absurd h_promise h_pending
  | false =>
    obtain ⟨h_flag, h_promise⟩ := flagKept_step h_step h_opens
    refine ⟨h_up', fun r h_mem h_run => ?_, fun h_pending => ?_⟩
    · have h_old := h_running r h_mem h_run
      rcases List.mem_append.mp h_mem with h_mem | h_mem
      · exact h_flag (h.flag r h_mem h_old)
      · rcases (asks_step h_step h_mem).2 with h_now | h_pending
        · exact h_now
        · exact h_flag (h.stopping h_pending)
    · rcases h_promise h_pending with h_old | h_now
      · exact h_flag (h.stopping h_old)
      · exact h_now

/-- The exit of a runtime that was asked for schedules no restart. -/
theorem schedulesAsked_eq_nil {w : Watched} (h : AskedInv w.server w.asked)
    (h_step : Instance.step cfg held w.server e = some s') : schedulesAsked w s' e = [] := by
  cases e with
  | exits r code half =>
    simp only [Instance.step] at h_step
    split at h_step
    · rename_i h_phase
      cases h_step
      rw [schedulesAsked]
      split
      · rename_i h_more
        simp only [Bool.and_eq_true, decide_eq_true_eq, List.contains_iff_mem] at h_more
        obtain ⟨h_asked, h_longer⟩ := h_more
        -- The runtime ran, so the flag is up and the exit adds no call.
        have h_run : w.server.runtimes[r]? = some .running := by
          rcases h_phase with h_run | h_failed
          · exact h_run
          · have h_up := h.up r h_asked
            rw [h_failed] at h_up
            simp at h_up
        rw [onClose_calls_of_exitRequested { w.server with runtimes := w.server.runtimes.set r .exited }
          cfg (h.flag r h_asked h_run) code half] at h_longer
        exact absurd h_longer (Nat.lt_irrefl _)
      · rfl
    · cases h_step
  | _ => rfl

end Steps

/-! ## Bounded crash restarts -/

/-- What a run inside the guard keeps. -/
structure WatchedInv (w : Watched) : Prop where
  budget : Budget w.server w.automatic w.mark w.changed
  asked : AskedInv w.server w.asked
  askedRestarts : w.askedRestarts = []
  launches : ∀ l ∈ w.launches,
    l.number ≤ attemptsOf l.setting ∧ restartEnabled l.setting = true ∧ l.asked = false

/-- A step does one of the things that are counted at most. -/
theorem resets_changes_restarted (cfg : InstanceConfig) (held : Option ServerLockKind)
    (s : ServerInstance) (e : Event) :
    (resets cfg s e = true → changes s e = false ∧ restarted held s e = none) ∧
      (changes s e = true → restarted held s e = none) := by
  cases e with
  | crashDelayOver i => exact ⟨fun h => (by cases h), fun h => (by cases h)⟩
  | setRestartOnError setting => exact ⟨fun h => (by cases h), fun _ => rfl⟩
  | _ => exact ⟨fun _ => ⟨rfl, rfl⟩, fun _ => rfl⟩

/-- The count after a step, and the launch the step makes. -/
theorem WatchedInv.counted {cfg : InstanceConfig} {held : Option ServerLockKind} {w : Watched}
    {s' : ServerInstance} {e : Event} (h : WatchedInv w)
    (h_step : Instance.step cfg held w.server e = some s')
    (h_mark : ∀ i, restarted held w.server e = some i → w.mark ≤ i) :
    Budget s' (w.note cfg held e s').automatic (w.note cfg held e s').mark
        (w.note cfg held e s').changed ∧
      ∀ i, restarted held w.server e = some i →
        w.automatic + 1 ≤ attemptsOf w.server.restartOnError ∧
          restartEnabled w.server.restartOnError = true := by
  obtain ⟨h_resets_only, h_changes_only⟩ := resets_changes_restarted cfg held w.server e
  cases h_resets : resets cfg w.server e with
  | true =>
    obtain ⟨h_changes, h_restarted⟩ := h_resets_only h_resets
    simp only [Watched.note, h_resets, h_restarted, if_true, Bool.true_or, Bool.not_true,
      Bool.false_and]
    exact ⟨.of_resets h_step h_resets, fun i h_none => by cases h_none⟩
  | false =>
    cases h_changes : changes w.server e with
    | true =>
      have h_restarted := h_changes_only h_changes
      simp only [Watched.note, h_resets, h_changes, h_restarted, if_true,
        Bool.not_false, Bool.or_true, Bool.and_true, Option.toList_none, List.length_nil,
        Nat.add_zero]
      exact ⟨h.budget.of_changes h_step h_changes, fun i h_none => by cases h_none⟩
    | false =>
      cases h_restarted : restarted held w.server e with
      | none =>
        simp only [Watched.note, h_resets, h_changes, h_restarted, Bool.or_false, Bool.not_false,
          Bool.true_and, Option.toList_none, List.length_nil, Nat.add_zero]
        exact ⟨h.budget.kept h_step h_resets h_changes h_restarted, fun i h_none => by cases h_none⟩
      | some i =>
        obtain ⟨h_budget, h_within, h_enabled⟩ :=
          h.budget.of_restarted h_step h_restarted (h_mark i h_restarted)
        simp only [Watched.note, h_resets, h_changes, h_restarted, Bool.or_false, Bool.not_false,
          Bool.true_and, Option.toList_some, List.length_singleton]
        exact ⟨h_budget, fun _ _ => ⟨h_within, h_enabled⟩⟩

theorem WatchedInv.step {cfg : InstanceConfig} {w w' : Watched} {e : LockedEvent}
    (h : WatchedInv w) (h_guard : restartGuard w e = true) (h_step : w.step cfg e = some w') :
    WatchedInv w' := by
  obtain ⟨held, e⟩ := e
  obtain ⟨s', h_server, rfl⟩ := Option.map_eq_some_iff.mp h_step
  simp only [restartGuard, Bool.and_eq_true, Bool.or_eq_true, Bool.not_eq_true',
    Option.isNone_iff_eq_none, List.all_eq_true, bne_iff_ne, Option.all_eq_true,
    decide_eq_true_eq] at h_guard
  obtain ⟨h_mark, h_quiet⟩ := h_guard
  obtain ⟨h_budget, h_within⟩ := h.counted h_server h_mark
  refine ⟨h_budget, h.asked.step h_server ?_, ?_, ?_⟩
  · intro h_opens
    rcases h_quiet with h_closed | h_open
    · rw [h_opens] at h_closed
      cases h_closed
    · exact h_open
  · show w.askedRestarts ++ schedulesAsked w s' e = []
    rw [h.askedRestarts, schedulesAsked_eq_nil h.asked h_server, List.append_nil]
  · intro l h_mem
    rcases List.mem_append.mp h_mem with h_old | h_new
    · exact h.launches l h_old
    · obtain ⟨i, h_i, rfl⟩ := List.mem_map.mp h_new
      obtain ⟨h_number, h_enabled⟩ := h_within i (Option.mem_toList.mp h_i)
      exact ⟨h_number, h_enabled, by rw [h.askedRestarts]; rfl⟩

theorem WatchedInv.init {cfg : InstanceConfig} {w : Watched} (h : (watchedMachine cfg).init w) :
    WatchedInv w := by
  obtain ⟨s, ⟨row, setting, -, rfl⟩, rfl⟩ := h
  refine ⟨⟨Nat.le_refl _, Nat.le_refl _, ?_, fun _ => Nat.zero_le _⟩, ⟨?_, ?_, ?_⟩, rfl, ?_⟩
  · intro h_pos
    exact absurd h_pos (Nat.lt_irrefl 0)
  · intro r h_mem
    cases h_mem
  · intro r h_mem
    cases h_mem
  · intro h_promise
    exact absurd rfl h_promise
  · intro l h_mem
    cases h_mem

/-- **Bounded crash restarts.** In every run in which no crash restart outlives a start by hand, a
RUNNING status or a change of its setting, and no launch begins next to a process that was asked
to exit, automatic launches stay within the attempts. -/
theorem restartsBounded_of_reachableUnder (cfg : InstanceConfig) {w : Watched}
    (h : (watchedMachine cfg).ReachableUnder (fun w e => restartGuard w e = true) w) :
    RestartsBounded w := by
  have h_inv : WatchedInv w :=
    h.invariant (fun _ h_init => .init h_init) fun _ _ _ h_inv h_guard h_step =>
      h_inv.step h_guard h_step
  refine ⟨h_inv.launches, fun h_changed => ?_⟩
  have h_count := h_inv.budget.count
  have h_bound := h_inv.budget.unchanged h_changed
  omega

/-- A stopped server that may restart once. -/
def restartsOnce : Watched := { server := { row := some .stopped, restartOnError := some ⟨true, 1⟩ } }

theorem restartsOnce_init (cfg : InstanceConfig) : (watchedMachine cfg).init restartsOnce :=
  ⟨_, ⟨.stopped, some ⟨true, 1⟩, rfl, rfl⟩, rfl⟩

/-- A start and a crash, with the restart it brings. -/
def crashOnce : List LockedEvent :=
  [(none, .start), (none, .nativeReady 0 true), (none, .startReturned 0),
   (none, .exits 0 (some 134) none), (none, .crashDelayOver 1), (none, .nativeReady 1 true),
   (none, .startReturned 1), (none, .exits 1 (some 134) none)]

theorem restartsBounded_crashOnce :
    ∃ w, (watchedMachine quietNative).runUnder restartGuard restartsOnce crashOnce = some w ∧
      w.automatic = 1 ∧ RestartsBounded w :=
  ⟨_, rfl, rfl, restartsBounded_of_reachableUnder quietNative
    ((watchedMachine quietNative).reachableUnder_of_runUnder crashOnce
      (.init (restartsOnce_init quietNative)) rfl)⟩

/-! ## Restarts that outlive a start by hand -/

/-- A crash and a start by hand before its restart; the next crash schedules a second restart
while the first one waits, and both launch. -/
def startInGracePeriod : List LockedEvent :=
  [(none, .start), (none, .nativeReady 0 true), (none, .startReturned 0),
   (none, .exits 0 (some 134) none),
   (none, .start), (none, .nativeReady 2 true), (none, .startReturned 2),
   (none, .exits 1 (some 134) none),
   (none, .crashDelayOver 1), (none, .nativeReady 1 true), (none, .startReturned 1),
   (none, .exits 2 (some 134) none),
   (none, .crashDelayOver 3)]

/-- One attempt is configured, and two automatic launches follow the start by hand. -/
theorem two_launches_of_one_attempt :
    ¬ ∀ (cfg : InstanceConfig) (w : Watched), (watchedMachine cfg).Reachable w →
        RestartsBounded w := by
  intro h
  have h_run := (Option.some_get
    (x := (watchedMachine quietNative).run restartsOnce startInGracePeriod) rfl).symm
  have h_bounded := h quietNative _ ((watchedMachine quietNative).reachable_of_run
    startInGracePeriod (.init (restartsOnce_init quietNative)) h_run)
  exact absurd (h_bounded.automatic rfl) (by decide)

/-- The setting is switched off while a restart waits: it launches all the same. -/
example :
    ((watchedMachine quietNative).run restartsOnce
      [(none, .start), (none, .nativeReady 0 true), (none, .startReturned 0),
       (none, .exits 0 (some 134) none), (none, .setRestartOnError (some ⟨false, 1⟩)),
       (none, .crashDelayOver 1)]).map (·.launches)
      = some [⟨1, some ⟨false, 1⟩, false⟩] := rfl

end Kubek.Instance
