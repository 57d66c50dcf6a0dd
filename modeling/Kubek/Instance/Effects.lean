/-
  Kubek.Instance.Effects

  What one step of an instance can do, said once. `step_effect` inverts
  `Instance.step` for the fields the launch protocol turns on (the runtimes, the
  runtime stored last, the suspended calls and the status row); every invariant of
  an instance is a case analysis over the six cases of `Effect`.
-/

import Kubek.Instance.Lifecycle
import Kubek.Lib.Machine
import Mathlib.Logic.Function.Basic

namespace Kubek.Instance

/-! ## Classes of calls -/

/-- The call is inside `launch()`. -/
def Call.isLaunch : Call → Bool
  | .launchCommand _ | .launchStart _ _ => true
  | .restartStopping _ | .restartDelay | .crashDelay | .done => false

/-- The call is inside `launch()` and may still bring a runtime up. -/
def Call.bringsUp (runtimes : List RuntimePhase) : Call → Bool
  | .launchCommand _ => true
  | .launchStart _ r => runtimes[r]? == some .created
  | _ => false

/-- The call is inside `launch()` and its runtime has not been up so far. -/
def Call.awaitsProcess (runtimes : List RuntimePhase) : Call → Bool
  | .launchCommand _ => true
  | .launchStart _ r => runtimes[r]? == some .created || runtimes[r]? == some .failed
  | _ => false

@[simp] theorem Call.isLaunch_done : Call.done.isLaunch = false := rfl

theorem Call.bringsUp_of_not_launch {c : Call} (h : c.isLaunch = false)
    (runtimes : List RuntimePhase) : c.bringsUp runtimes = false := by
  cases c <;> first | rfl | cases h

theorem Call.awaitsProcess_of_not_launch {c : Call} (h : c.isLaunch = false)
    (runtimes : List RuntimePhase) : c.awaitsProcess runtimes = false := by
  cases c <;> first | rfl | cases h

/-- Fewer runtimes about to come up, fewer calls that bring one up. -/
theorem Call.bringsUp_mono {c : Call} {rts rts' : List RuntimePhase}
    (h : ∀ r : Nat, rts'[r]? = some .created → rts[r]? = some .created)
    (hc : c.bringsUp rts' = true) : c.bringsUp rts = true := by
  cases c with
  | launchStart caller r =>
    have hr := h r (by simpa [Call.bringsUp] using hc)
    simp [Call.bringsUp, hr]
  | launchCommand caller => rfl
  | restartStopping p => cases hc
  | restartDelay => cases hc
  | crashDelay => cases hc
  | done => cases hc

namespace ServerInstance

/-- Some launch may still bring a runtime up. -/
def bringingUp (s : ServerInstance) : Bool := s.calls.any (·.bringsUp s.runtimes)

/-- Some launch is in progress whose runtime has not been up so far. -/
def awaitingProcess (s : ServerInstance) : Bool := s.calls.any (·.awaitsProcess s.runtimes)

/-- Some launch is in progress. -/
def launching (s : ServerInstance) : Bool := s.calls.any (·.isLaunch)

/-- Some runtime of the instance is running, stored or not. -/
def anyRunning (s : ServerInstance) : Bool := s.runtimes.any (· == .running)

/-- The stored status, if the server still has one, is STOPPED or CRASHED. -/
def rowIdle (s : ServerInstance) : Bool := s.row.all (·.isIdle)

/-- The event passes the checks of `launch()` and of its caller. -/
def opensLaunch (held : Option ServerLockKind) (s : ServerInstance) : Event → Bool
  | .start | .restartDelayOver _ => !s.isRunning && held != some .restore
  | .crashDelayOver _ =>
      !(s.disposed || s.shuttingDown) && s.row == some .crashed &&
        !s.isRunning && held != some .restore
  | _ => false

/-! ## Lookups -/

theorem isRunning_congr {s t : ServerInstance} (h_rts : t.runtimes = s.runtimes)
    (h_srv : t.serverRuntime = s.serverRuntime) : t.isRunning = s.isRunning := by
  simp only [isRunning, h_rts, h_srv]

theorem callAt_congr {s t : ServerInstance} (h : t.calls = s.calls) :
    t.callAt = s.callAt := by
  funext i
  simp only [callAt, h]

theorem callAt_lt {s : ServerInstance} {i : Nat} (h : s.callAt i ≠ .done) :
    i < s.calls.length := by
  by_contra h_ge
  exact h (by simp [callAt, List.getElem?_eq_none (Nat.le_of_not_lt h_ge)])

@[simp] theorem callAt_length (s : ServerInstance) : s.callAt s.calls.length = .done := by
  simp [callAt]

theorem callAt_append (s : ServerInstance) (c : Call) {t : ServerInstance}
    (h : t.calls = s.calls ++ [c]) :
    t.callAt = Function.update s.callAt s.calls.length c := by
  funext j
  by_cases hj : j = s.calls.length
  · subst hj
    simp [callAt, h]
  · rw [Function.update_of_ne hj]
    simp only [callAt, h, List.getElem?_append]
    by_cases hlt : j < s.calls.length
    · simp [hlt]
    · have h_gt : j - s.calls.length ≠ 0 := by omega
      simp [hlt, h_gt]

theorem callAt_set (s : ServerInstance) {i : Nat} (hi : i < s.calls.length) (c : Call)
    {t : ServerInstance} (h : t.calls = s.calls.set i c) :
    t.callAt = Function.update s.callAt i c := by
  funext j
  by_cases hj : j = i
  · subst hj
    simp [callAt, h, hi]
  · rw [Function.update_of_ne hj]
    simp only [callAt, h, List.getElem?_set_ne (Ne.symm hj)]

/-- No call changes. -/
theorem callAt_same {s t : ServerInstance} (h : t.calls = s.calls) :
    t.callAt = Function.update s.callAt s.calls.length .done := by
  rw [callAt_congr h, ← callAt_length s, Function.update_eq_self]

/-- Where a call of the next state comes from, when one call moved. -/
theorem callAt_cases {s t : ServerInstance} {i j : Nat} {c d : Call}
    (calls : t.callAt = Function.update s.callAt i c) (h : t.callAt j = d) :
    (j = i ∧ c = d) ∨ (j ≠ i ∧ s.callAt j = d) := by
  rw [calls] at h
  by_cases hj : j = i
  · subst hj
    exact .inl ⟨rfl, by simpa using h⟩
  · exact .inr ⟨hj, by simpa [hj] using h⟩

theorem any_calls_iff (s : ServerInstance) {p : Call → Bool} (hp : p .done = false) :
    s.calls.any p = true ↔ ∃ i, p (s.callAt i) = true := by
  constructor
  · intro h
    obtain ⟨c, hc, hpc⟩ := List.any_eq_true.mp h
    obtain ⟨i, hi, rfl⟩ := List.mem_iff_getElem.mp hc
    exact ⟨i, by simpa [callAt, hi] using hpc⟩
  · rintro ⟨i, hi⟩
    have h_lt : i < s.calls.length := callAt_lt (by
      intro h_done
      rw [h_done, hp] at hi
      cases hi)
    refine List.any_eq_true.mpr ⟨s.calls[i], List.getElem_mem h_lt, ?_⟩
    simpa [callAt, h_lt] using hi

theorem bringingUp_iff (s : ServerInstance) :
    s.bringingUp = true ↔ ∃ i, (s.callAt i).bringsUp s.runtimes = true :=
  any_calls_iff s rfl

theorem awaitingProcess_iff (s : ServerInstance) :
    s.awaitingProcess = true ↔ ∃ i, (s.callAt i).awaitsProcess s.runtimes = true :=
  any_calls_iff s rfl

theorem launching_iff (s : ServerInstance) :
    s.launching = true ↔ ∃ i, (s.callAt i).isLaunch = true :=
  any_calls_iff s rfl

theorem anyRunning_iff (s : ServerInstance) :
    s.anyRunning = true ↔ ∃ r : Nat, s.runtimes[r]? = some RuntimePhase.running := by
  simp only [anyRunning, List.any_eq_true, beq_iff_eq]
  constructor
  · rintro ⟨_, h_mem, rfl⟩
    exact List.mem_iff_getElem?.mp h_mem
  · rintro ⟨r, hr⟩
    exact ⟨.running, List.mem_iff_getElem?.mpr ⟨r, hr⟩, rfl⟩

theorem anyRunning_of_isRunning {s : ServerInstance} (h : s.isRunning = true) :
    s.anyRunning = true := by
  rw [anyRunning_iff]
  simp only [isRunning] at h
  split at h
  · cases h
  · rename_i r _
    exact ⟨r, by simpa using h⟩

/-! ## What the methods leave alone -/

section Frames

variable (s : ServerInstance) (cfg : InstanceConfig)

attribute [local simp] updateStatus in
theorem updateStatus_frame (st : ServerStatus) :
    (s.updateStatus st).runtimes = s.runtimes ∧
      (s.updateStatus st).serverRuntime = s.serverRuntime ∧
      (s.updateStatus st).calls = s.calls := by
  simp only [updateStatus]; split
  · exact ⟨rfl, rfl, rfl⟩
  · split <;> exact ⟨rfl, rfl, rfl⟩

@[simp] theorem updateStatus_runtimes (st : ServerStatus) :
    (s.updateStatus st).runtimes = s.runtimes := (s.updateStatus_frame st).1

@[simp] theorem updateStatus_serverRuntime (st : ServerStatus) :
    (s.updateStatus st).serverRuntime = s.serverRuntime := (s.updateStatus_frame st).2.1

@[simp] theorem updateStatus_calls (st : ServerStatus) :
    (s.updateStatus st).calls = s.calls := (s.updateStatus_frame st).2.2

/-- The row holds the new status, if there is a row. -/
@[simp] theorem updateStatus_row (st : ServerStatus) :
    (s.updateStatus st).row = s.row.map fun _ => st := by
  simp only [updateStatus]
  split
  · rename_i h; simp [h]
  · rename_i current h
    split
    · rename_i h_eq; simp [h, h_eq]
    · simp [h]

theorem updateStatus_rowIdle {st : ServerStatus} (h : st.isIdle = true) :
    (s.updateStatus st).rowIdle = true := by
  cases h_row : s.row <;> simp [rowIdle, h_row, h]

attribute [local simp] onLine in
theorem onLine_frame (line : String) :
    (s.onLine cfg line).runtimes = s.runtimes ∧
      (s.onLine cfg line).serverRuntime = s.serverRuntime ∧
      (s.onLine cfg line).calls = s.calls := by
  simp only [onLine]; split <;> simp

@[simp] theorem onLine_runtimes (line : String) : (s.onLine cfg line).runtimes = s.runtimes :=
  (s.onLine_frame cfg line).1

@[simp] theorem onLine_serverRuntime (line : String) :
    (s.onLine cfg line).serverRuntime = s.serverRuntime := (s.onLine_frame cfg line).2.1

@[simp] theorem onLine_calls (line : String) : (s.onLine cfg line).calls = s.calls :=
  (s.onLine_frame cfg line).2.2

attribute [local simp] onCrash in
theorem onCrash_frame :
    s.onCrash.runtimes = s.runtimes ∧ s.onCrash.serverRuntime = s.serverRuntime ∧
      s.onCrash.row = s.row := by
  simp only [onCrash]; split <;> exact ⟨rfl, rfl, rfl⟩

@[simp] theorem onCrash_runtimes : s.onCrash.runtimes = s.runtimes := s.onCrash_frame.1

@[simp] theorem onCrash_serverRuntime : s.onCrash.serverRuntime = s.serverRuntime :=
  s.onCrash_frame.2.1

@[simp] theorem onCrash_row : s.onCrash.row = s.row := s.onCrash_frame.2.2

/-- A crash adds at most one call, the pause before the restart. -/
theorem onCrash_calls :
    s.onCrash.calls = s.calls ∨ s.onCrash.calls = s.calls ++ [.crashDelay] := by
  simp only [onCrash]
  split
  · exact .inr rfl
  · exact .inl rfl

attribute [local simp] closeConsole in
theorem closeConsole_frame (half : Option String) :
    (s.closeConsole cfg half).runtimes = s.runtimes ∧
      (s.closeConsole cfg half).serverRuntime = s.serverRuntime ∧
      (s.closeConsole cfg half).calls = s.calls := by
  cases half <;> simp [closeConsole]

@[simp] theorem closeConsole_runtimes (half : Option String) :
    (s.closeConsole cfg half).runtimes = s.runtimes := (s.closeConsole_frame cfg half).1

@[simp] theorem closeConsole_serverRuntime (half : Option String) :
    (s.closeConsole cfg half).serverRuntime = s.serverRuntime :=
  (s.closeConsole_frame cfg half).2.1

@[simp] theorem closeConsole_calls (half : Option String) :
    (s.closeConsole cfg half).calls = s.calls := (s.closeConsole_frame cfg half).2.2

attribute [local simp] onClose in
@[simp] theorem onClose_runtimes (code : Option Int) (half : Option String) :
    (s.onClose cfg code half).runtimes = s.runtimes := by
  cases h : isCrashCode code <;> simp [onClose, h]

@[simp] theorem onClose_serverRuntime (code : Option Int) (half : Option String) :
    (s.onClose cfg code half).serverRuntime = s.serverRuntime := by
  cases h : isCrashCode code <;> simp [onClose, h]

theorem onClose_calls (code : Option Int) (half : Option String) :
    (s.onClose cfg code half).calls = s.calls ∨
      (s.onClose cfg code half).calls = s.calls ++ [.crashDelay] := by
  cases h : isCrashCode code with
  | false => exact .inl (by simp [onClose, h])
  | true =>
    have h_calls := onCrash_calls ((s.closeConsole cfg half).updateStatus .crashed)
    simpa [onClose, h] using h_calls

/-- Whatever the last line said, the exit itself says STOPPED or CRASHED. -/
theorem onClose_rowIdle (code : Option Int) (half : Option String) :
    (s.onClose cfg code half).rowIdle = true := by
  cases h : isCrashCode code with
  | false =>
    have h_idle := updateStatus_rowIdle (s.closeConsole cfg half)
      (show ServerStatus.stopped.isIdle = true from rfl)
    simpa [onClose, h, rowIdle] using h_idle
  | true =>
    have h_idle := updateStatus_rowIdle (s.closeConsole cfg half)
      (show ServerStatus.crashed.isIdle = true from rfl)
    simpa [onClose, h, rowIdle] using h_idle

attribute [local simp] launchThrew in
theorem launchThrew_frame (caller : Caller) :
    (s.launchThrew caller).runtimes = s.runtimes ∧
      (s.launchThrew caller).serverRuntime = s.serverRuntime ∧
      (s.launchThrew caller).calls = s.calls := by
  cases caller
  · exact ⟨rfl, rfl, rfl⟩
  · simp only [launchThrew]; split <;> simp

@[simp] theorem launchThrew_runtimes (caller : Caller) :
    (s.launchThrew caller).runtimes = s.runtimes := (s.launchThrew_frame caller).1

@[simp] theorem launchThrew_serverRuntime (caller : Caller) :
    (s.launchThrew caller).serverRuntime = s.serverRuntime := (s.launchThrew_frame caller).2.1

@[simp] theorem launchThrew_calls (caller : Caller) :
    (s.launchThrew caller).calls = s.calls := (s.launchThrew_frame caller).2.2

/-- Only `restartAfterCrash` repairs the status, and only while nothing runs. -/
theorem launchThrew_row (caller : Caller) :
    (s.launchThrew caller).row = s.row ∨ (s.launchThrew caller).rowIdle = true := by
  cases caller with
  | start => exact .inl rfl
  | restartAfterCrash =>
    simp only [launchThrew]
    split
    · exact .inl rfl
    · exact .inr (updateStatus_rowIdle s rfl)

theorem launchThrew_restartAfterCrash (h : s.isRunning = false) :
    (s.launchThrew .restartAfterCrash).rowIdle = true := by
  simp only [launchThrew, h]
  exact updateStatus_rowIdle s rfl

attribute [local simp] stop in
theorem stop_frame :
    s.stop.1.runtimes = s.runtimes ∧ s.stop.1.serverRuntime = s.serverRuntime ∧
      s.stop.1.calls = s.calls := by
  simp only [stop]; split
  · exact ⟨rfl, rfl, rfl⟩
  · split <;> simp

@[simp] theorem stop_runtimes : s.stop.1.runtimes = s.runtimes := s.stop_frame.1

@[simp] theorem stop_serverRuntime : s.stop.1.serverRuntime = s.serverRuntime := s.stop_frame.2.1

@[simp] theorem stop_calls : s.stop.1.calls = s.calls := s.stop_frame.2.2

/-- `stop()` of a server that is down changes nothing. -/
theorem stop_row (h : s.isRunning = false) : s.stop.1.row = s.row := by
  simp [stop, h]

attribute [local simp] restart in
/-- `restart()` of a running server stops it and waits. -/
theorem restart_cases :
    (s.isRunning = false ∧ s.restart = (s, .done)) ∨
    (s.isRunning = true ∧ ∃ c : Call, c.isLaunch = false ∧ s.restart = (s.stop.1, c)) := by
  cases h_run : s.isRunning with
  | false => exact .inl ⟨rfl, by simp [restart, h_run]⟩
  | true =>
    refine .inr ⟨rfl, ?_⟩
    rcases h_stop : s.stop with ⟨t, _ | p⟩
    · exact ⟨.restartDelay, rfl, by simp [restart, h_run, h_stop]⟩
    · exact ⟨.restartStopping p, rfl, by simp [restart, h_run, h_stop]⟩

attribute [local simp] launch in
/-- `launch()` refuses a running server and a restore, else it says STARTING and
    goes to its first await. -/
theorem launch_cases (held : Option ServerLockKind) (caller : Caller) :
    (s.isRunning = true ∧ s.launch held caller = (s, .done)) ∨
    (s.isRunning = false ∧ held = some .restore ∧
      s.launch held caller = (s.launchThrew caller, .done)) ∨
    (s.isRunning = false ∧ held ≠ some .restore ∧
      s.launch held caller =
        (({ s with exitRequested := false }).updateStatus .starting, .launchCommand caller)) := by
  cases h_run : s.isRunning with
  | true => exact .inl ⟨rfl, by simp [launch, h_run]⟩
  | false =>
    by_cases h_held : held = some .restore
    · exact .inr (.inl ⟨rfl, h_held, by simp [launch, h_run, h_held]⟩)
    · exact .inr (.inr ⟨rfl, h_held, by simp [launch, h_run, h_held]⟩)

@[simp] theorem launch_calls (held : Option ServerLockKind) (caller : Caller) :
    (s.launch held caller).1.calls = s.calls := by
  obtain ⟨-, h⟩ | ⟨-, -, h⟩ | ⟨-, -, h⟩ := launch_cases s held caller <;> simp [h]

attribute [local simp] start in
@[simp] theorem start_calls (held : Option ServerLockKind) :
    (s.start held).1.calls = s.calls := by
  simp only [start]
  split <;> simp

@[simp] theorem crashDelayOver_calls (held : Option ServerLockKind) :
    (s.crashDelayOver held).1.calls = s.calls := by
  simp only [crashDelayOver]
  split
  · rfl
  · split <;> simp

end Frames

end ServerInstance

/-! ## The cases of a step -/

open ServerInstance

/-- How a step outside `launch()` may leave the status row. -/
inductive RowChange (cfg : InstanceConfig) (s : ServerInstance) (e : Event)
    (s' : ServerInstance) : Prop
  | same (h : s'.row = s.row)
  | idle (h : s'.rowIdle = true)
  /-- `stop()` says STOPPING, of a running server only. -/
  | live (h : s.isRunning = true)
  /-- A console line says what its pattern says, whatever the process does. -/
  | line (r : Nat) (text : String) (st : ServerStatus) (he : e = .line r text)
      (h : cfg.detection.detect text = some st) (h_row : s'.row = s.row.map fun _ => st)

/-- What a step may do to the runtimes, the runtime stored last, the suspended calls
    and the status row. -/
inductive Effect (cfg : InstanceConfig) (held : Option ServerLockKind) (s : ServerInstance)
    (e : Event) (s' : ServerInstance) : Prop
  /-- No launch is touched; one other call may move on. -/
  | aside (i : Nat) (c : Call) (h_old : (s.callAt i).isLaunch = false)
      (h_new : c.isLaunch = false) (calls : s'.callAt = Function.update s.callAt i c)
      (runtimes : s'.runtimes = s.runtimes) (server : s'.serverRuntime = s.serverRuntime)
      (row : RowChange cfg s e s')
  /-- A call enters `launch()` and passes its checks. -/
  | enter (i : Nat) (caller : Caller) (h_old : (s.callAt i).isLaunch = false)
      (opens : s.opensLaunch held e = true)
      (calls : s'.callAt = Function.update s.callAt i (.launchCommand caller))
      (runtimes : s'.runtimes = s.runtimes) (server : s'.serverRuntime = s.serverRuntime)
  /-- The command is there: a runtime is made, stored and told to start. -/
  | ready (i : Nat) (caller : Caller) (phase : RuntimePhase)
      (h_at : s.callAt i = .launchCommand caller) (h_phase : phase ≠ .exited)
      (calls : s'.callAt = Function.update s.callAt i (.launchStart caller s.runtimes.length))
      (runtimes : s'.runtimes = s.runtimes ++ [phase])
      (server : s'.serverRuntime = some s.runtimes.length) (row : s'.row = s.row)
  /-- A container comes up. -/
  | up (i : Nat) (caller : Caller) (r : Nat) (h_at : s.callAt i = .launchStart caller r)
      (h_phase : s.runtimes[r]? = some .created) (calls : s'.callAt = s.callAt)
      (runtimes : s'.runtimes = s.runtimes.set r .running)
      (server : s'.serverRuntime = s.serverRuntime) (row : s'.row = s.row)
  /-- `launch()` throws after it said STARTING. -/
  | fails (i : Nat) (caller : Caller) (he : e = .commandThrew i ∨ e = .startThrew i)
      (h_at : s.callAt i = .launchCommand caller ∨
        ∃ r, s.callAt i = .launchStart caller r ∧
          (s.runtimes[r]? = some .created ∨ s.runtimes[r]? = some .failed))
      (calls : s'.callAt = Function.update s.callAt i .done)
      (runtimes : s'.runtimes = s.runtimes) (server : s'.serverRuntime = s.serverRuntime)
      (row : s'.row = (s.launchThrew caller).row)
  /-- `runtime.start` resolved and `launch()` returns. -/
  | returns (i : Nat) (caller : Caller) (r : Nat) (he : e = .startReturned i)
      (h_at : s.callAt i = .launchStart caller r) (h_phase : s.runtimes[r]? ≠ some .created)
      (calls : s'.callAt = Function.update s.callAt i .done)
      (runtimes : s'.runtimes = s.runtimes) (server : s'.serverRuntime = s.serverRuntime)
      (row : s'.row = s.row)
  /-- A runtime is gone; a crash may schedule a restart. -/
  | exit (r i : Nat) (c : Call) (h_old : (s.callAt i).isLaunch = false)
      (h_new : c.isLaunch = false) (calls : s'.callAt = Function.update s.callAt i c)
      (runtimes : s'.runtimes = s.runtimes.set r .exited)
      (server : s'.serverRuntime = s.serverRuntime) (row : s'.rowIdle = true)

section Inversion

variable {cfg : InstanceConfig} {held : Option ServerLockKind} {s s' : ServerInstance}
  {e : Event}

/-- A step that leaves runtimes and calls alone. -/
theorem Effect.quiet (calls : s'.calls = s.calls) (runtimes : s'.runtimes = s.runtimes)
    (server : s'.serverRuntime = s.serverRuntime) (row : RowChange cfg s e s') :
    Effect cfg held s e s' :=
  .aside s.calls.length .done (by simp) rfl (callAt_same calls) runtimes server row

/-- A call that ran into `launch()` and now is where `p` says. -/
theorem Effect.of_launch {t : ServerInstance} {caller : Caller} {i : Nat}
    (h_t : t = { s with crashRestarts := t.crashRestarts })
    (h_old : (s.callAt i).isLaunch = false)
    (h_opens : s.isRunning = false → held ≠ some .restore → s.opensLaunch held e = true)
    (calls : s'.callAt = Function.update s.callAt i (t.launch held caller).2)
    (runtimes : s'.runtimes = (t.launch held caller).1.runtimes)
    (server : s'.serverRuntime = (t.launch held caller).1.serverRuntime)
    (row : s'.row = (t.launch held caller).1.row) : Effect cfg held s e s' := by
  have h_rts : t.runtimes = s.runtimes := by rw [h_t]
  have h_srv : t.serverRuntime = s.serverRuntime := by rw [h_t]
  have h_row : t.row = s.row := by rw [h_t]
  have h_running : t.isRunning = s.isRunning := isRunning_congr h_rts h_srv
  obtain ⟨-, h⟩ | ⟨-, -, h⟩ | ⟨h_run, h_held, h⟩ := launch_cases t held caller
  · rw [h] at calls runtimes server row
    exact .aside i .done h_old rfl calls (runtimes.trans h_rts) (server.trans h_srv)
      (.same (row.trans h_row))
  · rw [h] at calls runtimes server row
    refine .aside i .done h_old rfl calls (by simpa [h_rts] using runtimes)
      (by simpa [h_srv] using server) ?_
    cases launchThrew_row t caller with
    | inl h_same => exact .same (row.trans (h_same.trans h_row))
    | inr h_idle => exact .idle (by simpa [rowIdle, row] using h_idle)
  · rw [h] at calls runtimes server
    exact .enter i caller h_old (h_opens (h_running ▸ h_run) h_held) calls
      (by simpa [h_rts] using runtimes) (by simpa [h_srv] using server)

/-- The same for a call that ran into `start()`. -/
theorem Effect.of_start {i : Nat} (h_old : (s.callAt i).isLaunch = false)
    (h_opens : s.isRunning = false → held ≠ some .restore → s.opensLaunch held e = true)
    (calls : s'.callAt = Function.update s.callAt i (s.start held).2)
    (runtimes : s'.runtimes = (s.start held).1.runtimes)
    (server : s'.serverRuntime = (s.start held).1.serverRuntime)
    (row : s'.row = (s.start held).1.row) : Effect cfg held s e s' := by
  cases h_run : s.isRunning with
  | true =>
    have h : s.start held = (s, .done) := by simp [start, h_run]
    rw [h] at calls runtimes server row
    exact .aside i .done h_old rfl calls runtimes server (.same row)
  | false =>
    have h : s.start held =
        launch held .start { s with crashRestarts := s.crashRestarts.reset } := by
      simp [start, h_run]
    rw [h] at calls runtimes server row
    exact .of_launch rfl h_old h_opens calls runtimes server row

/-- The same for a call that ran through the pause of `restartAfterCrash()`. -/
theorem Effect.of_crashDelayOver {i : Nat} (h_old : (s.callAt i).isLaunch = false)
    (he : e = .crashDelayOver i)
    (calls : s'.callAt = Function.update s.callAt i (s.crashDelayOver held).2)
    (runtimes : s'.runtimes = (s.crashDelayOver held).1.runtimes)
    (server : s'.serverRuntime = (s.crashDelayOver held).1.serverRuntime)
    (row : s'.row = (s.crashDelayOver held).1.row) : Effect cfg held s e s' := by
  by_cases h_off : (s.disposed || s.shuttingDown || s.isRunning) = true
  · have h : s.crashDelayOver held = (s, .done) := by simp only [crashDelayOver, h_off, if_true]
    rw [h] at calls runtimes server row
    exact .aside i .done h_old rfl calls runtimes server (.same row)
  by_cases h_row : s.row = some .crashed
  · have h : s.crashDelayOver held = s.launch held .restartAfterCrash := by
      simp [crashDelayOver, h_off, h_row]
    rw [h] at calls runtimes server row
    refine .of_launch rfl h_old (fun h_run h_held => ?_) calls runtimes server row
    subst he
    simp only [Bool.or_eq_true, not_or, Bool.not_eq_true] at h_off
    simp [opensLaunch, h_off.1.1, h_off.1.2, h_row, h_run, h_held]
  · have h : s.crashDelayOver held = (s, .done) := by
      simp [crashDelayOver, h_off, h_row]
    rw [h] at calls runtimes server row
    exact .aside i .done h_old rfl calls runtimes server (.same row)

/-- `stop()` touches the row of a running server only. -/
theorem rowChange_stop : RowChange cfg s e s.stop.1 := by
  cases h : s.isRunning with
  | true => exact .live h
  | false => exact .same (stop_row s h)

theorem onLine_rowChange (r : Nat) (text : String) :
    RowChange cfg s (.line r text) (s.onLine cfg text) := by
  cases h : cfg.detection.detect text with
  | none => exact .same (by simp [onLine, h])
  | some st => exact .line r text st rfl h (by simp [onLine, h])

/-- A runtime goes and `onClose` handles it. -/
theorem Effect.of_onClose (r : Nat) (code : Option Int) (half : Option String) :
    Effect cfg held s e
      (({ s with runtimes := s.runtimes.set r .exited }).onClose cfg code half) := by
  cases onClose_calls { s with runtimes := s.runtimes.set r .exited } cfg code half with
  | inl h_same =>
    exact .exit r s.calls.length .done (by simp) rfl (callAt_same h_same)
      (by simp) (by simp) (onClose_rowIdle ..)
  | inr h_more =>
    exact .exit r s.calls.length .crashDelay (by simp) rfl (callAt_append s _ h_more)
      (by simp) (by simp) (onClose_rowIdle ..)

/-- The suspended call at `i` goes on to another await, if it is at `c` now. -/
theorem callAt_resume {i : Nat} {c c' : Call} {t : ServerInstance} (h_at : s.callAt i = c)
    (h_c : c ≠ .done) (h_t : t.calls = s.calls) :
    (resume i (t, c')).callAt = Function.update s.callAt i c' :=
  callAt_set s (callAt_lt (h_at ▸ h_c)) c' (by simp [resume, h_t])

/-- **Inversion of `step`.** -/
theorem step_effect (h : step cfg held s e = some s') : Effect cfg held s e s' := by
  cases e with
  | start =>
    simp only [step, Option.some.injEq] at h
    subst h
    refine .of_start (i := s.calls.length) (by simp) (fun h_run h_held => ?_) ?_ rfl rfl rfl
    · simp [opensLaunch, h_run, h_held]
    · exact callAt_append s _ (by simp [push])
  | restart =>
    simp only [step, Option.some.injEq] at h
    subst h
    obtain ⟨-, h_eq⟩ | ⟨h_run, c, h_c, h_eq⟩ := restart_cases s
    · rw [h_eq]
      exact .aside s.calls.length .done (by simp) rfl (callAt_append s _ rfl) rfl rfl (.same rfl)
    · rw [h_eq]
      exact .aside s.calls.length c (by simp) h_c (callAt_append s _ (by simp [push]))
        (by simp [push]) (by simp [push]) (.live h_run)
  | stop =>
    simp only [step, Option.some.injEq] at h
    subst h
    exact .quiet (stop_calls s) (stop_runtimes s) (stop_serverRuntime s) rowChange_stop
  | stopForShutdown =>
    simp only [step, Option.some.injEq] at h
    subst h
    refine .quiet (by simp [stopForShutdown]) (by simp [stopForShutdown])
      (by simp [stopForShutdown]) ?_
    cases h_run : s.isRunning with
    | true => exact .live h_run
    | false => exact .same (stop_row { s with shuttingDown := true } h_run)
  | kill =>
    simp only [step, Option.some.injEq] at h
    subst h
    by_cases h_run : s.isRunning = true
    · exact .quiet (by simp [kill, h_run]) (by simp [kill, h_run]) (by simp [kill, h_run])
        (.live h_run)
    · exact .quiet (by simp [kill, h_run]) (by simp [kill, h_run]) (by simp [kill, h_run])
        (.same (by simp [kill, h_run]))
  | dispose =>
    simp only [step, Option.some.injEq] at h
    subst h
    exact .quiet rfl rfl rfl (.same rfl)
  | restartStopped i =>
    simp only [step] at h
    split at h
    · rename_i p h_at
      split at h
      · cases h
        exact .aside i .restartDelay (by rw [h_at]; rfl) rfl
          (callAt_resume h_at (by simp) rfl) rfl rfl (.same rfl)
      · cases h
    · cases h
  | restartDelayOver i =>
    simp only [step] at h
    split at h
    · rename_i h_at
      cases h
      refine .of_start (i := i) (by rw [h_at]; rfl) (fun h_run h_held => ?_) ?_ rfl rfl rfl
      · simp [opensLaunch, h_run, h_held]
      · exact callAt_resume h_at (by simp) (start_calls s held)
    · cases h
  | crashDelayOver i =>
    simp only [step] at h
    split at h
    · rename_i h_at
      cases h
      exact .of_crashDelayOver (i := i) (by rw [h_at]; rfl) rfl
        (callAt_resume h_at (by simp) (crashDelayOver_calls s held)) rfl rfl rfl
    · cases h
  | nativeReady i spawned =>
    simp only [step] at h
    split at h
    · rename_i caller h_at
      split at h
      · cases h
        refine .ready i caller _ h_at ?_ (callAt_set s (callAt_lt (by simp [h_at])) _ rfl)
          rfl rfl rfl
        split <;> simp
      · cases h
    · cases h
  | dockerReady i =>
    simp only [step] at h
    split at h
    · rename_i caller h_at
      split at h
      · cases h
        exact .ready i caller .created h_at (by simp)
          (callAt_set s (callAt_lt (by simp [h_at])) _ rfl) rfl rfl rfl
      · cases h
    · cases h
  | commandThrew i =>
    simp only [step] at h
    split at h
    · rename_i caller h_at
      cases h
      exact .fails i caller (.inl rfl) (.inl h_at)
        (callAt_resume h_at (by simp) (by simp)) (by simp [resume]) (by simp [resume]) rfl
    · cases h
  | containerUp i =>
    simp only [step] at h
    split at h
    · rename_i caller r h_at
      split at h
      · rename_i h_phase
        cases h
        exact .up i caller r h_at h_phase (callAt_congr rfl) rfl rfl rfl
      · cases h
    · cases h
  | startReturned i =>
    simp only [step] at h
    split at h
    · rename_i caller r h_at
      split at h
      · cases h
      · rename_i h_phase
        cases h
        exact .returns i caller r rfl h_at h_phase (callAt_resume h_at (by simp) rfl) rfl rfl rfl
    · cases h
  | startThrew i =>
    simp only [step] at h
    split at h
    · rename_i caller r h_at
      split at h
      · rename_i h_phase
        cases h
        exact .fails i caller (.inr rfl) (.inr ⟨r, h_at, h_phase⟩)
          (callAt_resume h_at (by simp) (by simp)) (by simp [resume]) (by simp [resume]) rfl
      · cases h
    · cases h
  | line r text =>
    simp only [step] at h
    split at h
    · cases h
      exact .quiet (by simp) (by simp) (by simp) (onLine_rowChange r text)
    · cases h
  | exits r code half =>
    simp only [step] at h
    split at h
    · cases h
      exact .of_onClose r code half
    · cases h
  | stopTimer t =>
    obtain ⟨p, -, rfl⟩ := Option.map_eq_some_iff.mp h
    exact .quiet rfl rfl rfl (.same rfl)
  | stopSettled p =>
    obtain ⟨p, -, rfl⟩ := Option.map_eq_some_iff.mp h
    exact .quiet rfl rfl rfl (.same rfl)
  | removeRow =>
    simp only [step, Option.some.injEq] at h
    subst h
    exact .quiet rfl rfl rfl (.idle rfl)
  | setRestartOnError setting =>
    simp only [step, Option.some.injEq] at h
    subst h
    exact .quiet rfl rfl rfl (.same rfl)

end Inversion

/-! ## The instance as a transition system -/

/-- A launch that brings a runtime up was about to, and only a call that passes the
    checks of `launch()` can join it. -/
theorem bringingUp_step {cfg : InstanceConfig} {held : Option ServerLockKind}
    {s s' : ServerInstance} {e : Event} (h : step cfg held s e = some s')
    (h_up : s'.bringingUp = true) :
    s.bringingUp = true ∨ s.opensLaunch held e = true := by
  obtain ⟨j, hj⟩ := (bringingUp_iff s').mp h_up
  -- the call `j` was where it is now, with the same or fewer runtimes to come up
  have h_kept : ∀ {i : Nat} {c : Call}, s'.callAt = Function.update s.callAt i c →
      c.bringsUp s'.runtimes = false →
      (∀ r : Nat, s'.runtimes[r]? = some .created → s.runtimes[r]? = some .created) →
      s.bringingUp = true := by
    intro i c calls h_c h_rts
    refine (bringingUp_iff s).mpr ⟨j, ?_⟩
    obtain ⟨-, h_eq⟩ | ⟨-, h_eq⟩ := callAt_cases calls rfl (j := j)
    · rw [← h_eq, h_c] at hj
      cases hj
    · rw [h_eq]
      exact Call.bringsUp_mono h_rts hj
  cases step_effect h with
  | aside i c _ h_new calls runtimes _ _ =>
    exact .inl (h_kept calls (Call.bringsUp_of_not_launch h_new _) (by simp [runtimes]))
  | enter i caller _ opens _ _ _ => exact .inr opens
  | ready i caller phase h_at _ _ _ _ _ =>
    exact .inl ((bringingUp_iff s).mpr ⟨i, by rw [h_at]; rfl⟩)
  | up i caller r h_at h_phase _ _ _ _ =>
    exact .inl ((bringingUp_iff s).mpr ⟨i, by simp [h_at, Call.bringsUp, h_phase]⟩)
  | fails i caller _ _ calls runtimes _ _ =>
    exact .inl (h_kept calls rfl (by simp [runtimes]))
  | returns i caller r _ _ _ calls runtimes _ _ =>
    exact .inl (h_kept calls rfl (by simp [runtimes]))
  | exit r i c _ h_new calls runtimes _ _ =>
    refine .inl (h_kept calls (Call.bringsUp_of_not_launch h_new _) fun q hq => ?_)
    rw [runtimes, List.getElem?_set] at hq
    split at hq
    · split at hq <;> simp at hq
    · exact hq

/-- A launch is refused while the server's restore lock is held. -/
theorem opensLaunch_restore (s : ServerInstance) (e : Event) :
    s.opensLaunch (some .restore) e = false := by
  cases e <;> simp [opensLaunch]

/-- The step starts a runtime, or lets its container come up. -/
def Event.startsRuntime : Event → Bool
  | .nativeReady _ _ | .dockerReady _ | .containerUp _ => true
  | _ => false

/-- Only a launch that is bringing a runtime up starts one. -/
theorem bringingUp_of_startsRuntime {cfg : InstanceConfig} {held : Option ServerLockKind}
    {s s' : ServerInstance} {e : Event} (h : step cfg held s e = some s')
    (he : e.startsRuntime = true) : s.bringingUp = true := by
  refine (bringingUp_iff s).mpr ?_
  cases e with
  | nativeReady i spawned =>
    simp only [step] at h
    split at h
    · rename_i h_at
      exact ⟨i, by rw [h_at]; rfl⟩
    · cases h
  | dockerReady i =>
    simp only [step] at h
    split at h
    · rename_i h_at
      exact ⟨i, by rw [h_at]; rfl⟩
    · cases h
  | containerUp i =>
    simp only [step] at h
    split at h
    · rename_i h_at
      split at h
      · rename_i h_phase
        exact ⟨i, by simp [h_at, Call.bringsUp, h_phase]⟩
      · cases h
    · cases h
  | _ => cases he

/-- A step together with the lock of the server at that moment. -/
abbrev LockedEvent := Option ServerLockKind × Event

/-- An instance made for a server that is down. -/
def machine (cfg : InstanceConfig) : Transition.Machine ServerInstance LockedEvent where
  init s := ∃ row setting, row.isIdle = true ∧ s = { row := some row, restartOnError := setting }
  step s e := step cfg e.1 s e.2

/-- A native server whose console says nothing about its status. -/
def quietNative : InstanceConfig where
  runtimeKind := .native
  detection := { starting := [], running := [], stopping := [] }

/-- A stopped server with its instance just made. -/
def freshInstance : ServerInstance := { row := some .stopped }

theorem freshInstance_init (cfg : InstanceConfig) : (machine cfg).init freshInstance :=
  ⟨.stopped, none, rfl, rfl⟩

end Kubek.Instance
