/-
  Kubek.Instance.Status

  The server statuses and the detector that reads one off a console line
  (status-detector.ts).
-/

import Kubek.Lib.JsText

namespace Kubek.Instance

/-- `ServerStatus` of server.types.ts. -/
inductive ServerStatus
  | stopped
  | starting
  | running
  | stopping
  | crashed
  deriving DecidableEq, Repr

/-- The statuses of a server that is down, the ones `restore` accepts. -/
def ServerStatus.isIdle : ServerStatus → Bool
  | .stopped | .crashed => true
  | .starting | .running | .stopping => false

/-- `CompiledDetection`: the patterns of a blueprint, each one the test of a
    compiled regular expression. -/
structure CompiledDetection where
  starting : List (String → Bool)
  running : List (String → Bool)
  stopping : List (String → Bool)

/-- `StatusDetector.detect`: starting before running before stopping. -/
def CompiledDetection.detect (d : CompiledDetection) (line : String) : Option ServerStatus :=
  let trimmed := JsText.trim line
  if trimmed.isEmpty then none
  else if d.starting.any (· trimmed) then some .starting
  else if d.running.any (· trimmed) then some .running
  else if d.stopping.any (· trimmed) then some .stopping
  else none

/-- A console line never reports a server as down. -/
theorem CompiledDetection.detect_not_idle (d : CompiledDetection) (line : String)
    {st : ServerStatus} (h : d.detect line = some st) : st.isIdle = false := by
  simp only [CompiledDetection.detect] at h
  split at h
  · cases h
  split at h
  · cases h; rfl
  split at h
  · cases h; rfl
  split at h
  · cases h; rfl
  · cases h

end Kubek.Instance
