/-
  Kubek.Instance.PendingStop

  The in-flight stop of an instance (pending-stop.ts): a promise that settles when
  the process exits, or is given up some time after the escalation to a kill.

  Promises and timers are numbered in the order they are made. `settle` is the
  resolver field, `timer` the handle of the timer set last, `promise` the field
  `current` reads. `armed` are the timers that have not fired and were not
  cleared, `answers` what each inner promise was settled with, and `finalized`
  the promises whose `finally` callback ran.
-/

import Mathlib.Tactic.Common

namespace Kubek.Instance

/-- The two timers of one stop. -/
inductive StopTimer
  | escalate
  | giveUp
  deriving DecidableEq, Repr

/-- `PendingStop`. -/
structure PendingStop where
  settle : Option Nat := none
  timer : Option Nat := none
  promise : Option Nat := none
  armed : List (Nat × StopTimer) := []
  answers : List (Nat × Bool) := []
  finalized : List Nat := []
  promises : Nat := 0
  timers : Nat := 0
  deriving DecidableEq, Repr

namespace PendingStop

/-- `setTimeout`, keeping the handle in `timer`. -/
def setTimer (p : PendingStop) (kind : StopTimer) : PendingStop :=
  { p with
    timer := some p.timers
    armed := p.armed ++ [(p.timers, kind)]
    timers := p.timers + 1 }

/-- `clearTimeout(this.timer)`, when a timer was ever set. -/
def clearTimer (p : PendingStop) : PendingStop :=
  match p.timer with
  | none => p
  | some t => { p with armed := p.armed.filter (·.1 != t) }

/-- `begin`: the new promise and the pending stop that holds it. -/
def beginStop (p : PendingStop) : PendingStop × Nat :=
  let made := { p with settle := some p.promises, promises := p.promises + 1 }
  ({ made.setTimer .escalate with promise := some p.promises }, p.promises)

/-- `finish`. -/
def finish (p : PendingStop) (ok : Bool) : PendingStop :=
  match p.settle with
  | none => p
  | some i => { p with settle := none, answers := p.answers ++ [(i, ok)] }

/-- `exited`: the process is gone. -/
def exited (p : PendingStop) : PendingStop :=
  match p.settle with
  | none => p
  | some _ => p.clearTimer.finish true

/-- A timer fires; `escalate` is the callback `begin` was given. -/
def fire (escalate : PendingStop → PendingStop) (p : PendingStop) (t : Nat) :
    Option PendingStop :=
  let fired := { p with armed := p.armed.filter (·.1 != t) }
  match p.armed.lookup t with
  | none => none
  | some .escalate =>
      match p.settle with
      | none => some fired
      | some _ => some ((escalate fired).setTimer .giveUp)
  | some .giveUp => some (fired.finish false)

/-- The `finally` callback of a settled promise, a microtask of its own. -/
def finalize (p : PendingStop) (i : Nat) : Option PendingStop :=
  if (p.answers.lookup i).isSome && !p.finalized.contains i then
    some { p with promise := none, finalized := p.finalized ++ [i] }
  else none

end PendingStop

end Kubek.Instance
