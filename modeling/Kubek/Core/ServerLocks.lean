/-
  Kubek.Core.ServerLocks

  One file level operation per server at a time (server-locks.service.ts). The
  function `acquire` returns is a lease: calling it twice releases once.
-/

import Kubek.Lib.LeaseTable

namespace Kubek

abbrev ServerId := String

/-- `ServerLockKind`: work that owns the server folder until it ends. -/
inductive ServerLockKind
  | backup
  | restore
  deriving DecidableEq, Repr

/-- `ServerLocksService`; `held` is its map, `acquire` and `release` its operations. -/
abbrev ServerLocksService := Leases.LeaseTable ServerId ServerLockKind

end Kubek
