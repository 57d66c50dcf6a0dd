/-
  Kubek.Instance.Completer

  Commands and completions in one terminal (`TerminalCompleter`).

  A completion is an exchange: it writes, waits for the echo and writes again, and the server's
  editor is left clean by its last write. A command that comes meanwhile waits: its own timer
  looks every 20 ms whether the exchange is over, for 3 s at most, and then writes it. The look
  and the write are two microtasks.

  So commands overtake each other, and get into an exchange, in three ways: a completion begins
  when a command is about to be written, a command is let through while an earlier one still
  waits, or the 3 s are over. In every run without these the terminal gets the commands in
  their order and each completion in one piece (`orderly_of_reachableUnder`).
-/

import Kubek.Lib.Machine
import Mathlib.Data.List.Nodup

namespace Kubek.Instance.Completer

open Transition

/-! ## The state -/

/-- What the terminal is written. -/
inductive Write
  | line (id : Nat) (text : String)
  /-- A part of an exchange. -/
  | part (exchange : Nat) (data : String) (last : Bool)
  deriving DecidableEq, Repr

/-- Where `complete` waits for an echo. -/
inductive Stage
  | cleared | typed | tabbed | declined | closing
  deriving DecidableEq, Repr

/-- An exchange in flight and its `afterEcho`. `timer` is `none` once it has fired. -/
structure Exchange where
  line : String
  stage : Stage
  start : Nat
  mark : Nat
  maxMs : Nat
  /-- New bytes have arrived, the response is streaming. -/
  echoed : Bool
  timer : Option Nat
  deriving DecidableEq, Repr

/-- A command in `whenIdle`. `timer` is `none` once it has fired. -/
structure Waiting where
  id : Nat
  text : String
  start : Nat
  timer : Option Nat
  deriving DecidableEq, Repr

/-- Microtasks: what goes on after an `await`. -/
inductive Task
  /-- The loop of `whenIdle` after its timer. -/
  | check (id : Nat)
  /-- `submitLine` after `whenIdle`. -/
  | write (id : Nat) (text : String)
  /-- The loop of `afterEcho` after its timer. -/
  | echo
  /-- `complete` after `afterEcho`. -/
  | goOn
  deriving DecidableEq, Repr

structure State where
  now : Nat := 0
  lastWriteAt : Nat := 0
  exchange : Option Exchange := none
  exchanges : Nat := 0
  waiting : List Waiting := []
  tasks : List Task := []
  log : List Write := []
  /-- All commands so far, numbered. -/
  submitted : List (Nat × String) := []
  deriving DecidableEq, Repr

inductive Event
  | submitLine (line : String)
  | complete (line : String)
  /-- Bytes of the terminal. -/
  | feed
  | advance (ms : Nat)
  | lineTimer (id : Nat)
  | echoTimer
  /-- The next microtask; does the screen ask before a huge set of candidates? -/
  | microtask (asks : Bool)
  deriving DecidableEq, Repr

namespace State

/-- `isBusy`. -/
def busy (s : State) : Bool := s.exchange.isSome

/-- Write a part of the exchange and wait for its echo. -/
def exchangeWrite (s : State) (line : String) (stage : Stage) (data : String) (maxMs : Nat) :
    State :=
  { s with
    log := s.log ++ [.part s.exchanges data (stage == .closing)]
    exchange := some ⟨line, stage, s.now, s.lastWriteAt, maxMs, false, some (s.now + 15)⟩ }

def clear (s : State) (line : String) : State := s.exchangeWrite line .cleared "\x15" 300

def close (s : State) (line : String) : State := s.exchangeWrite line .closing "\x15" 300

def tab (s : State) (line : String) : State := s.exchangeWrite line .tabbed "\t" 900

/-- `submitLine`, up to its first `await`. -/
def submitLine (s : State) (line : String) : State :=
  let id := s.submitted.length
  let s := { s with submitted := s.submitted ++ [(id, line)] }
  if s.busy then { s with waiting := s.waiting ++ [⟨id, line, s.now, some (s.now + 20)⟩] }
  else { s with tasks := s.tasks ++ [.write id line] }

/-- `complete`, up to its first `await`. -/
def complete (s : State) (line : String) : State :=
  if s.busy then s else { s with exchanges := s.exchanges + 1 }.clear line

/-- The loop of `whenIdle`. -/
def keepsWaiting (s : State) (w : Waiting) : Bool := s.busy && s.now - w.start < 3000

/-- The loop of `afterEcho`: `none` where it is over, else whether the response streams. -/
def awaitsEcho (s : State) (x : Exchange) : Option Bool :=
  if !x.echoed && s.now - x.start < x.maxMs && s.lastWriteAt == x.mark then some false
  else if s.now - x.start < x.maxMs then
    if 60 ≤ s.now - s.lastWriteAt then none else some true
  else none

def setTimer (id : Nat) (timer : Option Nat) (w : Waiting) : Waiting :=
  if w.id = id then { w with timer := timer } else w

/-- `complete` after an `afterEcho`. -/
def goOn (s : State) (x : Exchange) (asks : Bool) : State :=
  match x.stage with
  | .cleared => if x.line = "" then s.tab x.line else s.exchangeWrite x.line .typed x.line 400
  | .typed => s.tab x.line
  | .tabbed => if asks then s.exchangeWrite x.line .declined "n" 400 else s.close x.line
  | .declined => s.close x.line
  | .closing => { s with exchange := none }

/-- One microtask, already taken from the queue. -/
def perform (s : State) (asks : Bool) : Task → State
  | .check id =>
      match s.waiting.find? (·.id == id) with
      | none => s
      | some w =>
          if s.keepsWaiting w then
            { s with waiting := s.waiting.map (setTimer id (some (s.now + 20))) }
          else
            { s with
              waiting := s.waiting.filter (·.id != id)
              tasks := s.tasks ++ [.write id w.text] }
  | .write id text => { s with log := s.log ++ [.line id text] }
  | .echo =>
      match s.exchange with
      | none => s
      | some x =>
          match s.awaitsEcho x with
          | some echoed =>
              { s with exchange := some { x with echoed := echoed, timer := some (s.now + 15) } }
          | none => { s with tasks := s.tasks ++ [.goOn] }
  | .goOn =>
      match s.exchange with
      | none => s
      | some x => s.goOn x asks

end State

/-- Timers fire late or in time, and, like the terminal's bytes, not before the microtasks are
    done. -/
def step (s : State) : Event → Option State
  | .submitLine line => some (s.submitLine line)
  | .complete line => some (s.complete line)
  | .feed => if s.tasks = [] then some { s with lastWriteAt := s.now } else none
  | .advance ms => some { s with now := s.now + ms }
  | .lineTimer id =>
      match s.waiting.find? (·.id == id) with
      | some ⟨_, _, _, some due⟩ =>
          if s.tasks = [] ∧ due ≤ s.now then
            some { s with
              waiting := s.waiting.map (State.setTimer id none)
              tasks := [.check id] }
          else none
      | _ => none
  | .echoTimer =>
      match s.exchange with
      | some x =>
          match x.timer with
          | some due =>
              if s.tasks = [] ∧ due ≤ s.now then
                some { s with exchange := some { x with timer := none }, tasks := [.echo] }
              else none
          | none => none
      | none => none
  | .microtask asks =>
      match s.tasks with
      | [] => none
      | task :: rest => some ({ s with tasks := rest }.perform asks task)

def machine : Machine State Event where
  init s := s = {}
  step := step

/-! ## What is promised -/

/-- The commands among what was written. -/
def written (log : List Write) : List (Nat × String) :=
  log.filterMap fun
    | .line id text => some (id, text)
    | .part _ _ _ => none

/-- The commands about to be written. -/
def queued (tasks : List Task) : List (Nat × String) :=
  tasks.filterMap fun
    | .write id text => some (id, text)
    | _ => none

/-- Is the terminal within an exchange after these writes? `none` where a command was written
    within one. -/
def within : Bool → List Write → Option Bool
  | inside, [] => some inside
  | inside, .line _ _ :: log => if inside then none else within inside log
  | _, .part _ _ last :: log => within (!last) log

/-- No command stands between the first and the last write of an exchange. -/
def Undivided (log : List Write) : Prop := (within false log).isSome = true

/-- The commands are written in their order, each once: those that are not written yet are
    about to be, or wait with a timer that ends within 3.02 s. No exchange is divided. -/
structure Orderly (s : State) : Prop where
  inOrder : written s.log ++ (queued s.tasks ++ s.waiting.map fun w => (w.id, w.text)) = s.submitted
  numbered : s.submitted.map Prod.fst = List.range s.submitted.length
  awaited : ∀ w ∈ s.waiting,
    (∃ due, w.timer = some due ∧ due < w.start + 3020) ∨ Task.check w.id ∈ s.tasks
  undivided : Undivided s.log

/-! ## The condition -/

namespace State

/-- Is a command about to be written? -/
def writes (s : State) : Bool := !(queued s.tasks).isEmpty

/-- No completion begins when a command is about to be written; no command is let through while
    an earlier one waits, or while an exchange is in flight. -/
def fine (s : State) : Event → Bool
  | .complete _ => s.busy || !s.writes
  | .submitLine _ => s.busy || s.waiting.isEmpty
  | .microtask _ =>
      match s.tasks with
      | .check id :: _ =>
          match s.waiting with
          | [] => true
          | w :: rest =>
              if w.id = id then !s.busy || s.keepsWaiting w
              else (rest.find? (·.id == id)).all s.keepsWaiting
      | _ => true
  | _ => true

end State

/-! ## The invariant -/

theorem within_append (inside : Bool) (xs ys : List Write) :
    within inside (xs ++ ys) = (within inside xs).bind fun inside => within inside ys := by
  induction xs generalizing inside with
  | nil => rfl
  | cons x xs ih =>
    cases x with
    | line id text =>
      rw [List.cons_append, within, within]
      split
      · rfl
      · exact ih inside
    | part exchange data last =>
      rw [List.cons_append, within, within]
      exact ih (!last)

theorem written_append (xs ys : List Write) : written (xs ++ ys) = written xs ++ written ys :=
  List.filterMap_append

theorem queued_append (xs ys : List Task) : queued (xs ++ ys) = queued xs ++ queued ys :=
  List.filterMap_append

/-- The commands that wait. -/
def lines (waiting : List Waiting) : List (Nat × String) := waiting.map fun w => (w.id, w.text)

namespace State

/-- Is an exchange in flight whose last write is still to come? -/
def inside (s : State) : Bool := s.exchange.any fun x => x.stage != .closing

end State

structure Inv (s : State) : Prop where
  inOrder : written s.log ++ (queued s.tasks ++ lines s.waiting) = s.submitted
  numbered : s.submitted.map Prod.fst = List.range s.submitted.length
  awaited : ∀ w ∈ s.waiting,
    (∃ due, w.timer = some due ∧ due < w.start + 3020) ∨ Task.check w.id ∈ s.tasks
  scan : within false s.log = some s.inside
  idle : s.writes = true → s.busy = false

namespace Inv

variable {s : State}

theorem orderly (h : Inv s) : Orderly s :=
  ⟨h.inOrder, h.numbered, h.awaited, by rw [Undivided, h.scan]; rfl⟩

/-- The commands that wait are different ones. -/
theorem nodup (h : Inv s) : (s.waiting.map Waiting.id).Nodup := by
  have h_ids : (s.waiting.map Waiting.id).Sublist (s.submitted.map Prod.fst) := by
    have h_lines : s.waiting.map Waiting.id = (lines s.waiting).map Prod.fst := by
      rw [lines, List.map_map]
      rfl
    rw [h_lines, ← h.inOrder]
    apply List.Sublist.map
    exact (List.sublist_append_right _ _).trans (List.sublist_append_right _ _)
  rw [h.numbered] at h_ids
  exact h_ids.nodup List.nodup_range

/-- A write of an exchange, when no command is about to be written. -/
theorem exchangeWrite (h : Inv s) (h_writes : s.writes = false) (line : String) (stage : Stage)
    (data : String) (maxMs : Nat) : Inv (s.exchangeWrite line stage data maxMs) := by
  refine ⟨?_, h.numbered, h.awaited, ?_, fun h_not => ?_⟩
  · show written (s.log ++ _) ++ _ = _
    rw [written_append, show written [Write.part s.exchanges data (stage == .closing)] = [] from rfl,
      List.append_nil]
    exact h.inOrder
  · show within false (s.log ++ _) = _
    rw [within_append, h.scan]
    rfl
  · have h_same : (s.exchangeWrite line stage data maxMs).writes = s.writes := rfl
    rw [h_same, h_writes] at h_not
    cases h_not

/-- A microtask that is neither a look nor a write of a command is taken from the queue. -/
theorem drop (h : Inv s) {task : Task} {rest : List Task} (h_tasks : s.tasks = task :: rest)
    (h_queued : queued [task] = []) (h_check : ∀ id, task ≠ .check id) :
    Inv { s with tasks := rest } := by
  have h_same : queued s.tasks = queued rest := by
    rw [h_tasks, ← List.singleton_append, queued_append, h_queued]
    rfl
  refine ⟨?_, h.numbered, fun w h_w => ?_, h.scan, fun h_writes => h.idle ?_⟩
  · rw [← h_same]
    exact h.inOrder
  · obtain h_timer | h_task := h.awaited w h_w
    · exact .inl h_timer
    · rw [h_tasks] at h_task
      obtain h_eq | h_rest := List.mem_cons.mp h_task
      · exact absurd h_eq.symm (h_check w.id)
      · exact .inr h_rest
  · rw [State.writes, h_same]
    exact h_writes

/-- With another exchange in the same stage nothing is different. -/
theorem withExchange (h : Inv s) {x x' : Exchange} (h_x : s.exchange = some x)
    (h_stage : x'.stage = x.stage) : Inv { s with exchange := some x' } := by
  refine ⟨h.inOrder, h.numbered, h.awaited, ?_, fun h_writes => ?_⟩
  · rw [h.scan, State.inside, State.inside, h_x]
    simp only [Option.any_some, h_stage]
  · have h_busy := h.idle h_writes
    rw [State.busy, h_x] at h_busy
    cases h_busy

/-- A microtask of the exchange is queued. -/
theorem push (h : Inv s) {task : Task} (h_queued : queued [task] = []) :
    Inv { s with tasks := s.tasks ++ [task] } := by
  have h_same : queued (s.tasks ++ [task]) = queued s.tasks := by
    rw [queued_append, h_queued, List.append_nil]
  refine ⟨?_, h.numbered, fun w h_w => ?_, h.scan, fun h_writes => h.idle ?_⟩
  · show written s.log ++ (queued (s.tasks ++ [task]) ++ _) = _
    rw [h_same]
    exact h.inOrder
  · exact (h.awaited w h_w).imp id fun h_mem => List.mem_append_left _ h_mem
  · rw [State.writes] at h_writes ⊢
    rw [← h_same]
    exact h_writes

/-! ### Calls -/

theorem submitLine (h : Inv s) (line : String) (h_fine : s.fine (.submitLine line) = true) :
    Inv (s.submitLine line) := by
  have h_numbered : (s.submitted ++ [(s.submitted.length, line)]).map Prod.fst =
      List.range (s.submitted ++ [(s.submitted.length, line)]).length := by
    rw [List.map_append, h.numbered, List.length_append, List.length_singleton,
      List.range_succ]
    rfl
  rw [State.submitLine]
  by_cases h_busy : s.busy = true
  · have h_if : ({ s with submitted := s.submitted ++ [(s.submitted.length, line)] } : State).busy =
        true := h_busy
    rw [if_pos h_if]
    refine ⟨?_, h_numbered, fun w h_w => ?_, h.scan, fun h_writes => h.idle h_writes⟩
    · show written s.log ++ (queued s.tasks ++ lines (s.waiting ++ _)) = s.submitted ++ _
      rw [lines, List.map_append, ← lines, ← h.inOrder]
      simp only [List.append_assoc, List.map_singleton]
    · obtain h_w | h_w := List.mem_append.mp h_w
      · exact h.awaited w h_w
      · rw [List.mem_singleton.mp h_w]
        exact .inl ⟨s.now + 20, rfl, by simp only; omega⟩
  · have h_if : ¬ ({ s with submitted := s.submitted ++ [(s.submitted.length, line)] } : State).busy =
        true := h_busy
    have h_none : s.waiting = [] := by
      rw [State.fine, (Bool.not_eq_true _).mp h_busy, Bool.false_or] at h_fine
      exact List.isEmpty_iff.mp h_fine
    rw [if_neg h_if]
    refine ⟨?_, h_numbered, fun w h_w => ?_, h.scan, fun _ => (Bool.not_eq_true _).mp h_busy⟩
    · show written s.log ++ (queued (s.tasks ++ _) ++ lines s.waiting) = s.submitted ++ _
      have h_order := h.inOrder
      rw [h_none] at h_order ⊢
      rw [queued_append, ← h_order]
      simp only [lines, List.map_nil, List.append_nil, List.append_assoc]
      rfl
    · exact (h.awaited w h_w).imp id fun h_mem => List.mem_append_left _ h_mem

theorem complete (h : Inv s) (line : String) (h_fine : s.fine (.complete line) = true) :
    Inv (s.complete line) := by
  rw [State.complete]
  by_cases h_busy : s.busy = true
  · rw [if_pos h_busy]
    exact h
  · rw [if_neg h_busy]
    have h_writes : s.writes = false := by
      rw [State.fine, (Bool.not_eq_true _).mp h_busy, Bool.false_or, Bool.not_eq_true'] at h_fine
      exact h_fine
    have h_next : Inv { s with exchanges := s.exchanges + 1 } :=
      ⟨h.inOrder, h.numbered, h.awaited, h.scan, h.idle⟩
    exact h_next.exchangeWrite h_writes line .cleared "" 300

/-! ### Timers -/

theorem lines_setTimer (id : Nat) (timer : Option Nat) (waiting : List Waiting) :
    lines (waiting.map (State.setTimer id timer)) = lines waiting := by
  rw [lines, lines, List.map_map]
  apply List.map_congr_left
  intro w _
  rw [Function.comp_apply, State.setTimer]
  split <;> rfl

/-- Where no microtask is left every command has its timer. -/
theorem timer_of_nil (h : Inv s) (h_tasks : s.tasks = []) {w : Waiting} (h_w : w ∈ s.waiting) :
    ∃ due, w.timer = some due ∧ due < w.start + 3020 := by
  obtain h_timer | h_task := h.awaited w h_w
  · exact h_timer
  · rw [h_tasks] at h_task
    cases h_task

theorem lineTimer (h : Inv s) (h_tasks : s.tasks = []) (id : Nat) :
    Inv { s with waiting := s.waiting.map (State.setTimer id none), tasks := [.check id] } := by
  refine ⟨?_, h.numbered, fun w h_w => ?_, h.scan, fun h_writes => (by cases h_writes)⟩
  · have h_order := h.inOrder
    rw [h_tasks] at h_order
    rw [lines_setTimer]
    exact h_order
  · obtain ⟨w', h_w', rfl⟩ := List.mem_map.mp h_w
    rw [State.setTimer]
    by_cases h_id : w'.id = id
    · rw [if_pos h_id]
      exact .inr (by rw [← h_id]; exact List.mem_cons_self)
    · rw [if_neg h_id]
      exact .inl (h.timer_of_nil h_tasks h_w')

theorem echoTimer (h : Inv s) (h_tasks : s.tasks = []) {x : Exchange} (h_x : s.exchange = some x) :
    Inv { s with exchange := some { x with timer := none }, tasks := [.echo] } := by
  have h_fired : Inv { s with exchange := some { x with timer := none } } :=
    h.withExchange h_x rfl
  have h_next := h_fired.push (show queued [Task.echo] = [] from rfl)
  simpa only [h_tasks, List.nil_append] using h_next

/-! ### Microtasks -/

theorem write (h : Inv s) {id : Nat} {text : String} {rest : List Task}
    (h_tasks : s.tasks = .write id text :: rest) :
    Inv { s with tasks := rest, log := s.log ++ [.line id text] } := by
  have h_idle : s.busy = false := h.idle (by rw [State.writes, h_tasks]; rfl)
  have h_none : s.exchange = none := by
    rw [State.busy, Option.isSome_eq_false_iff, Option.isNone_iff_eq_none] at h_idle
    exact h_idle
  have h_inside : s.inside = false := by rw [State.inside, h_none]; rfl
  refine ⟨?_, h.numbered, fun w h_w => ?_, ?_, fun _ => h_idle⟩
  · have h_order := h.inOrder
    rw [h_tasks] at h_order
    show written (s.log ++ [.line id text]) ++ (queued rest ++ lines s.waiting) = s.submitted
    rw [written_append, List.append_assoc]
    exact h_order
  · obtain h_timer | h_task := h.awaited w h_w
    · exact .inl h_timer
    · rw [h_tasks] at h_task
      obtain h_eq | h_rest := List.mem_cons.mp h_task
      · cases h_eq
      · exact .inr h_rest
  · show within false (s.log ++ [.line id text]) = some s.inside
    rw [within_append, h.scan, h_inside]
    rfl

/-- A command whose look is taken from the queue is let through, or waits on. -/
theorem check (h : Inv s) {id : Nat} {rest : List Task} (h_tasks : s.tasks = .check id :: rest)
    {asks : Bool} (h_fine : s.fine (.microtask asks) = true) :
    Inv (({ s with tasks := rest } : State).perform asks (.check id)) := by
  have h_queued : queued s.tasks = queued rest := by rw [h_tasks]; rfl
  have h_order := h.inOrder
  rw [h_queued] at h_order
  have h_awaited : ∀ w ∈ s.waiting, w.id ≠ id →
      (∃ due, w.timer = some due ∧ due < w.start + 3020) ∨ Task.check w.id ∈ rest := by
    intro w h_w h_id
    obtain h_timer | h_task := h.awaited w h_w
    · exact .inl h_timer
    · rw [h_tasks] at h_task
      obtain h_eq | h_rest := List.mem_cons.mp h_task
      · cases h_eq
        exact absurd rfl h_id
      · exact .inr h_rest
  have h_writes : ({ s with tasks := rest } : State).writes = s.writes := by
    rw [State.writes, State.writes, h_queued]
  rw [State.perform]
  simp only
  cases h_find : s.waiting.find? (·.id == id) with
  | none =>
    have h_none : ∀ w ∈ s.waiting, w.id ≠ id := by
      intro w h_w
      simpa using List.find?_eq_none.mp h_find w h_w
    exact ⟨h_order, h.numbered, fun w h_w => h_awaited w h_w (h_none w h_w), h.scan,
      fun h_w => h.idle (h_writes ▸ h_w)⟩
  | some w =>
    have h_mem := List.mem_of_find?_eq_some h_find
    have h_id : w.id = id := by simpa using List.find?_some h_find
    have h_keeps : ({ s with tasks := rest } : State).keepsWaiting w = s.keepsWaiting w := rfl
    simp only
    rw [h_keeps]
    by_cases h_wait : s.keepsWaiting w = true
    · rw [if_pos h_wait]
      refine ⟨by rw [lines_setTimer]; exact h_order, h.numbered, fun w' h_w' => ?_, h.scan,
        fun h_w => h.idle (h_writes ▸ h_w)⟩
      obtain ⟨v, h_v, rfl⟩ := List.mem_map.mp h_w'
      rw [State.setTimer]
      by_cases h_same : v.id = id
      · -- the next look is due before the 3 s and one round more are over
        have h_eq : v = w := by
          apply List.inj_on_of_nodup_map h.nodup h_v h_mem
          rw [h_same, h_id]
        have h_lt : s.now - w.start < 3000 := by
          rw [State.keepsWaiting, Bool.and_eq_true, decide_eq_true_eq] at h_wait
          exact h_wait.2
        rw [if_pos h_same, h_eq]
        exact .inl ⟨s.now + 20, rfl, by simp only; omega⟩
      · rw [if_neg h_same]
        exact h_awaited v h_v h_same
    · rw [if_neg h_wait]
      -- only the first of the commands is let through, and the terminal is free
      rw [State.fine, h_tasks] at h_fine
      simp only at h_fine
      cases h_waiting : s.waiting with
      | nil =>
        rw [h_waiting] at h_mem
        cases h_mem
      | cons v more =>
        rw [h_waiting] at h_fine h_find
        simp only at h_fine
        by_cases h_v : v.id = id
        · rw [List.find?_cons_of_pos (by rw [h_v, beq_self_eq_true])] at h_find
          cases h_find
          rw [if_pos h_v, (Bool.not_eq_true _).mp h_wait, Bool.or_false, Bool.not_eq_true'] at h_fine
          have h_nodup := h.nodup
          rw [h_waiting, List.map_cons, List.nodup_cons] at h_nodup
          have h_filter : (w :: more).filter (·.id != id) = more := by
            rw [List.filter_cons_of_neg (by simp [h_v])]
            apply List.filter_eq_self.mpr
            intro u h_u
            have h_ne : u.id ≠ id := fun h_eq =>
              h_nodup.1 (by rw [h_v, ← h_eq]; exact List.mem_map_of_mem h_u)
            simpa using h_ne
          rw [h_filter]
          refine ⟨?_, h.numbered, fun u h_u => ?_, h.scan, fun _ => h_fine⟩
          · rw [h_waiting] at h_order
            show written s.log ++ (queued (rest ++ [.write id w.text]) ++ lines more) = s.submitted
            rw [queued_append, ← h_order, ← h_v]
            simp only [List.append_assoc]
            rfl
          · have h_ne : u.id ≠ id := fun h_eq =>
              h_nodup.1 (by rw [h_v, ← h_eq]; exact List.mem_map_of_mem h_u)
            have h_mem' : u ∈ s.waiting := by
              rw [h_waiting]
              exact List.mem_cons_of_mem _ h_u
            exact (h_awaited u h_mem' h_ne).imp (fun h_timer => h_timer)
              fun h_in => List.mem_append_left _ h_in
        · rw [List.find?_cons_of_neg (by simpa using h_v)] at h_find
          rw [if_neg h_v, h_find, Option.all_some] at h_fine
          exact absurd h_fine h_wait

theorem goOn (h : Inv s) {x : Exchange} (h_x : s.exchange = some x) (asks : Bool) :
    Inv (s.goOn x asks) := by
  have h_writes : s.writes = false := by
    cases h_not : s.writes with
    | false => rfl
    | true =>
      have h_busy := h.idle h_not
      rw [State.busy, h_x] at h_busy
      cases h_busy
  have h_write := fun line stage data maxMs => h.exchangeWrite h_writes line stage data maxMs
  rw [State.goOn]
  cases h_stage : x.stage with
  | cleared =>
    simp only
    split
    · exact h_write _ _ _ _
    · exact h_write _ _ _ _
  | typed => exact h_write _ _ _ _
  | tabbed =>
    simp only
    split
    · exact h_write _ _ _ _
    · exact h_write _ _ _ _
  | declined => exact h_write _ _ _ _
  | closing =>
    refine ⟨h.inOrder, h.numbered, h.awaited, ?_, fun _ => rfl⟩
    rw [h.scan, State.inside, h_x, State.inside, Option.any_some, h_stage]
    rfl

/-- The loop of `afterEcho`. -/
theorem echo (h : Inv s) (asks : Bool) : Inv (s.perform asks .echo) := by
  rw [State.perform]
  cases h_x : s.exchange with
  | none => exact h
  | some x =>
    simp only
    split
    · exact h.withExchange h_x rfl
    · rw [← h_x]
      exact h.push (show queued [Task.goOn] = [] from rfl)

theorem performGoOn (h : Inv s) (asks : Bool) : Inv (s.perform asks .goOn) := by
  rw [State.perform]
  cases h_x : s.exchange with
  | none => exact h
  | some x => exact h.goOn h_x asks

end Inv

theorem inv_init : Inv {} :=
  ⟨rfl, rfl, fun w h_w => (by cases h_w), rfl, fun h => (by cases h)⟩

theorem inv_step {s s' : State} {e : Event} (h : Inv s) (h_fine : s.fine e = true)
    (h_step : step s e = some s') : Inv s' := by
  cases e with
  | submitLine line =>
    cases h_step
    exact h.submitLine line h_fine
  | complete line =>
    cases h_step
    exact h.complete line h_fine
  | feed =>
    rw [step] at h_step
    split at h_step
    · cases h_step
      exact ⟨h.inOrder, h.numbered, h.awaited, h.scan, h.idle⟩
    · cases h_step
  | advance ms =>
    cases h_step
    exact ⟨h.inOrder, h.numbered, h.awaited, h.scan, h.idle⟩
  | lineTimer id =>
    rw [step] at h_step
    split at h_step
    · split at h_step
      · rename_i h_due
        cases h_step
        exact h.lineTimer h_due.1 id
      · cases h_step
    · cases h_step
  | echoTimer =>
    rw [step] at h_step
    split at h_step
    · rename_i x h_x
      split at h_step
      · split at h_step
        · rename_i h_due
          cases h_step
          exact h.echoTimer h_due.1 h_x
        · cases h_step
      · cases h_step
    · cases h_step
  | microtask asks =>
    rw [step] at h_step
    cases h_tasks : s.tasks with
    | nil =>
      rw [h_tasks] at h_step
      cases h_step
    | cons task rest =>
      rw [h_tasks] at h_step
      cases h_step
      cases task with
      | check id => exact h.check h_tasks h_fine
      | write id text => exact h.write h_tasks
      | echo => exact (h.drop h_tasks rfl fun id h_eq => (by cases h_eq)).echo asks
      | goOn => exact (h.drop h_tasks rfl fun id h_eq => (by cases h_eq)).performGoOn asks

/-- In every run all of whose steps are fine the commands are written in their order, each
    once, and no exchange is divided. -/
theorem orderly_of_reachableUnder {s : State}
    (h : machine.ReachableUnder (fun s e => s.fine e = true) s) : Orderly s := by
  apply Inv.orderly
  refine h.invariant ?_ ?_
  · rintro _ rfl
    exact inv_init
  · exact fun s e s' h_s h_fine h_step => inv_step h_s h_fine h_step

/-- A command that is submitted within an exchange waits until its last write is done. -/
theorem orderly_whole_exchange :
    Orderly ⟨1840, 0, none, 1, [], [], [.part 1 "\x15" false, .part 1 "\t" false,
      .part 1 "\x15" true, .line 0 "list"], [(0, "list")]⟩ := by
  refine orderly_of_reachableUnder (machine.reachableUnder_of_runUnder
    [.complete "", .submitLine "list",
     .advance 300, .lineTimer 0, .microtask false, .echoTimer, .microtask false, .microtask false,
     .advance 900, .echoTimer, .microtask false, .microtask false,
     .advance 300, .lineTimer 0, .microtask false, .echoTimer, .microtask false, .microtask false,
     .advance 340, .lineTimer 0, .microtask false, .microtask false] (.init rfl) ?_)
  rfl

/-- A completion that begins in the same turn as a command is submitted has the command among
    its writes. -/
theorem command_gets_into_exchange : ¬ ∀ s, machine.Reachable s → Orderly s := by
  intro h
  have h_s := h ⟨0, 0, some ⟨"", .cleared, 0, 0, 300, false, some 15⟩, 1, [], [],
    [.part 1 "\x15" false, .line 0 "stop"], [(0, "stop")]⟩
    (machine.reachable_of_run [.submitLine "stop", .complete "", .microtask false] (.init rfl) rfl)
  have h_undivided := h_s.undivided
  rw [Undivided] at h_undivided
  cases h_undivided

end Kubek.Instance.Completer
