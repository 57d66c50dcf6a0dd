/-
  Kubek.MetricsHistory.PowerShellSampler

  `PowerShellSampler` of `modules/metrics-history/services/process-table.ts`: one shell that
  is kept between the samples of the process table, one request at a time, and a new shell
  after one that failed or was idle.

  A shell answers every line it is sent with rows of numbers and the end marker. What it
  wrote arrives in chunks that are cut anywhere, also after it was killed. The events of a
  replaced shell are told apart by the `error` and `exit` handlers, but not by the one for
  data: what a stuck shell answers late is taken for the answer of the next
  (`late_answer_mixes`). As long as no chunk of a shell arrives while another one runs, every
  query gets the answer to its own request (`neverMixes_of_reachableUnder`).
-/

import Kubek.Lib.Machine
import Kubek.Lib.TextSearch
import Mathlib.Data.List.Nodup
import Mathlib.Logic.Function.Basic

namespace Kubek.MetricsHistory

open Transition

abbrev Text := List Char

def END_MARKER : Text := "__KUBEK_END__".toList

/-! ## The shell -/

/-- A shell: the lines it was sent, its answers with a marker behind each, and what it wrote
    since; `delivered` characters of all that have arrived. -/
structure Shell where
  requests : Nat := 0
  answers : List Text := []
  rest : Text := []
  delivered : Nat := 0
  deriving DecidableEq, Repr

namespace Shell

/-- Answers with their markers. -/
def marked (answers : List Text) : Text := answers.flatMap (· ++ END_MARKER)

/-- All a shell wrote. -/
def stream (shell : Shell) : Text := marked shell.answers ++ shell.rest

/-- The next `n` characters. -/
def chunk (shell : Shell) (n : Nat) : Text := (shell.stream.drop shell.delivered).take n

end Shell

/-! ## The sampler -/

inductive Outcome
  | resolved (text : Text)
  | rejected (message : String)
  deriving DecidableEq, Repr

/-- The query that waits, with the timer that ends its wait. -/
structure Pending where
  query : Nat
  timer : Nat
  deriving DecidableEq, Repr

inductive SamplerTimer
  | answer
  | idle
  deriving DecidableEq, Repr

/-- Queries, shells and timers are numbered in the order they are made. `armed` are the timers
    that have not fired and were not cleared; `asked` says of a query which shell it was sent
    to, and as which of its lines. -/
structure Sampler where
  proc : Option Nat := none
  output : Text := []
  pending : Option Pending := none
  idleTimer : Option Nat := none
  armed : List (Nat × SamplerTimer) := []
  timers : Nat := 0
  shells : Nat → Shell := fun _ => {}
  spawned : Nat := 0
  queries : Nat := 0
  settled : List (Nat × Outcome) := []
  asked : List (Nat × Nat × Nat) := []

namespace Sampler

def setShell (s : Sampler) (i : Nat) (shell : Shell) : Sampler :=
  { s with shells := Function.update s.shells i shell }

def settle (s : Sampler) (query : Nat) (outcome : Outcome) : Sampler :=
  { s with settled := s.settled ++ [(query, outcome)] }

def clearTimeout (s : Sampler) (timer : Option Nat) : Sampler :=
  { s with armed := s.armed.filter fun entry => some entry.1 ≠ timer }

def setTimeout (s : Sampler) (kind : SamplerTimer) : Sampler :=
  { s with armed := s.armed ++ [(s.timers, kind)], timers := s.timers + 1 }

/-- `stop`. -/
def stop (s : Sampler) : Sampler :=
  { s.clearTimeout s.idleTimer with proc := none, output := [] }

/-- `fail`. -/
def fail (s : Sampler) (message : String) : Sampler :=
  match s.pending with
  | none => s.stop
  | some p =>
      { (s.clearTimeout (some p.timer)).settle p.query (.rejected message) with
        pending := none }.stop

/-- `ensureStarted`. -/
def ensureStarted (s : Sampler) : Sampler × Nat :=
  match s.proc with
  | some i => (s, i)
  | none =>
      ({ s.setShell s.spawned {} with proc := some s.spawned, output := [], spawned := s.spawned + 1 },
        s.spawned)

/-- The part of `query` behind its check: the timer, and a line to the shell. -/
def ask (s : Sampler) (i : Nat) : Sampler :=
  let cleared := s.clearTimeout s.idleTimer
  let shell := s.shells i
  { (cleared.setTimeout .answer).setShell i { shell with requests := shell.requests + 1 } with
    pending := some ⟨s.queries, s.timers⟩
    queries := s.queries + 1
    asked := s.asked ++ [(s.queries, i, shell.requests)] }

/-- `query`. -/
def query (s : Sampler) : Sampler :=
  match s.pending with
  | some _ =>
      { s.settle s.queries (.rejected "sample in progress") with queries := s.queries + 1 }
  | none => (s.ensureStarted).1.ask (s.ensureStarted).2

/-- `onData`. -/
def onData (s : Sampler) (chunk : Text) : Sampler :=
  let output := s.output ++ chunk
  match TextSearch.indexOf END_MARKER output, s.pending with
  | some at_, some p =>
      let answered := { s.clearTimeout (some p.timer) with
        output := output.drop (at_ + END_MARKER.length)
        pending := none
        idleTimer := some s.timers }
      (answered.setTimeout .idle).settle p.query (.resolved (output.take at_))
  | _, _ => { s with output }

/-- The handlers of `error` and `exit`. -/
def shellFailed (s : Sampler) (i : Nat) (message : String) : Sampler :=
  if s.proc = some i then s.fail message else s

/-! ## Runs -/

inductive Event
  | query
  /-- The shell writes a part of an answer. -/
  | writes (shell : Nat) (rows : Text)
  /-- The shell ends an answer. -/
  | finishes (shell : Nat)
  /-- The next `n` characters of the shell arrive. -/
  | data (shell n : Nat)
  | error (shell : Nat) (message : String)
  | exit (shell : Nat)
  | timer (id : Nat)

/-- A shell writes numbers and blanks, and one marker for a line at most. -/
def step (s : Sampler) : Event → Option Sampler
  | .query => some s.query
  | .writes i rows =>
      let shell := s.shells i
      if i < s.spawned ∧ '_' ∉ rows then some (s.setShell i { shell with rest := shell.rest ++ rows })
      else none
  | .finishes i =>
      let shell := s.shells i
      if i < s.spawned ∧ shell.answers.length < shell.requests then
        some (s.setShell i { shell with answers := shell.answers ++ [shell.rest], rest := [] })
      else none
  | .data i n =>
      let shell := s.shells i
      if i < s.spawned ∧ shell.delivered + n ≤ shell.stream.length then
        some ((s.setShell i { shell with delivered := shell.delivered + n }).onData (shell.chunk n))
      else none
  | .error i message => if i < s.spawned then some (s.shellFailed i message) else none
  | .exit i => if i < s.spawned then some (s.shellFailed i "PowerShell exited") else none
  | .timer id =>
      let fired := { s with armed := s.armed.filter fun entry => entry.1 ≠ id }
      match s.armed.lookup id with
      | some .answer => some (fired.fail "PowerShell did not answer in time")
      | some .idle => some fired.stop
      | none => none

def machine : Machine Sampler Event where
  init s := s = {}
  step := step

/-- No chunk of a shell arrives while another one runs. -/
def fromCurrent (s : Sampler) : Event → Bool
  | .data i _ => s.proc = some i || s.proc.isNone
  | _ => true

/-- Queries settle once, at most one is open, and what a query got is the answer of its shell
    to its own line. -/
structure NeverMixes (s : Sampler) : Prop where
  once : (s.settled.map Prod.fst).Nodup
  open_pending : ∀ q < s.queries, q ∉ s.settled.map Prod.fst →
    ∃ p, s.pending = some p ∧ p.query = q
  pending_open : ∀ p, s.pending = some p → p.query ∉ s.settled.map Prod.fst
  asked_once : (s.asked.map Prod.fst).Nodup
  own : ∀ q text, (q, Outcome.resolved text) ∈ s.settled →
    ∃ i k, (q, i, k) ∈ s.asked ∧ (s.shells i).answers[k]? = some text

end Sampler

/-! ## The marker in a stream -/

theorem count_marker : END_MARKER.count '_' = 5 := by decide

theorem count_zero {text : Text} (h : '_' ∉ text) : text.count '_' = 0 :=
  List.count_eq_zero.mpr h

/-- Texts without an underscore, up to the first one, are equal where the wholes are. -/
theorem eq_of_underscore {xs ys us vs : Text} (h_xs : '_' ∉ xs) (h_ys : '_' ∉ ys)
    (h : xs ++ '_' :: us = ys ++ '_' :: vs) : xs = ys ∧ us = vs := by
  induction xs generalizing ys with
  | nil =>
    cases ys with
    | nil => exact ⟨rfl, (List.cons.inj h).2⟩
    | cons y ys => exact absurd ((List.cons.inj h).1 ▸ List.mem_cons_self) h_ys
  | cons x xs ih =>
    cases ys with
    | nil => exact absurd ((List.cons.inj h).1 ▸ List.mem_cons_self) h_xs
    | cons y ys =>
      obtain ⟨rfl, h_tail⟩ := List.cons.inj h
      obtain ⟨rfl, h_rest⟩ := ih (fun h_mem => h_xs (List.mem_cons_of_mem _ h_mem))
        (fun h_mem => h_ys (List.mem_cons_of_mem _ h_mem)) h_tail
      exact ⟨rfl, h_rest⟩

/-- The first marker in what has arrived of an answer is the one behind the answer. -/
theorem marker_at {output answer after : Text} {i : Nat} (h_answer : '_' ∉ answer)
    (h_after : '_' ∉ after) (h_output : output <+: answer ++ END_MARKER ++ after)
    (h : TextSearch.indexOf END_MARKER output = some i) :
    output.take i = answer ∧ output.drop (i + END_MARKER.length) <+: after ∧
      output = answer ++ END_MARKER ++ output.drop (i + END_MARKER.length) := by
  obtain ⟨pre, post, h_split, h_length⟩ := TextSearch.indexOf_eq_some h
  obtain ⟨more, h_more⟩ := h_output
  rw [h_split] at h_more
  -- There are five underscores in all, those of one marker.
  have h_count := congrArg (List.count '_') h_more
  simp only [List.count_append, count_marker, count_zero h_answer, count_zero h_after] at h_count
  have h_pre : '_' ∉ pre := List.count_eq_zero.mp (by omega)
  have h_marker : END_MARKER = '_' :: "_KUBEK_END__".toList := rfl
  have h_eq : pre ++ '_' :: ("_KUBEK_END__".toList ++ (post ++ more)) =
      answer ++ '_' :: ("_KUBEK_END__".toList ++ after) := by
    rw [h_marker] at h_more
    simp only [List.append_assoc, List.cons_append] at h_more
    exact h_more
  obtain ⟨h_same, h_rest⟩ := eq_of_underscore h_pre h_answer h_eq
  have h_post : post ++ more = after := List.append_cancel_left h_rest
  have h_take : output.take i = pre := by
    rw [h_split, List.append_assoc, ← h_length, List.take_left']
    rfl
  have h_drop : output.drop (i + END_MARKER.length) = post := by
    rw [h_split, ← h_length, ← List.length_append, List.drop_left]
  rw [h_take, h_drop, h_split, h_same]
  exact ⟨rfl, ⟨more, h_post⟩, rfl⟩

/-- Without an underscore there is no marker. -/
theorem no_marker {output : Text} (h : '_' ∉ output) : TextSearch.indexOf END_MARKER output = none := by
  cases h_index : TextSearch.indexOf END_MARKER output with
  | none => rfl
  | some i =>
    obtain ⟨pre, post, h_split, -⟩ := TextSearch.indexOf_eq_some h_index
    have h_mem : '_' ∈ output := by
      rw [h_split, List.mem_append, List.mem_append]
      exact .inl (.inr (by decide))
    exact absurd h_mem h

/-! ## What holds between the events -/

/-- What a shell has written: an answer for a line at most, and nothing of a marker but the
    markers. -/
structure Shell.Written (shell : Shell) : Prop where
  answered : shell.answers.length ≤ shell.requests
  clean : ∀ a ∈ shell.answers, '_' ∉ a
  clean_rest : '_' ∉ shell.rest
  delivered : shell.delivered ≤ shell.stream.length

/-- The output is what has arrived behind the `k` answers that were taken. -/
def Shell.Reads (shell : Shell) (k : Nat) (output : Text) : Prop :=
  k ≤ shell.answers.length ∧
    shell.stream.take shell.delivered = Shell.marked (shell.answers.take k) ++ output

theorem Shell.marked_append (xs ys : List Text) :
    Shell.marked (xs ++ ys) = Shell.marked xs ++ Shell.marked ys := List.flatMap_append

theorem Shell.Written.writes {shell : Shell} (h : shell.Written) {rows : Text} (h_rows : '_' ∉ rows) :
    Shell.Written { shell with rest := shell.rest ++ rows } ∧
      shell.stream <+: Shell.stream { shell with rest := shell.rest ++ rows } := by
  have h_stream : Shell.stream { shell with rest := shell.rest ++ rows } = shell.stream ++ rows :=
    (List.append_assoc ..).symm
  refine ⟨⟨h.answered, h.clean, ?_, ?_⟩, ⟨rows, h_stream.symm⟩⟩
  · exact fun h_mem => (List.mem_append.mp h_mem).elim h.clean_rest h_rows
  · rw [h_stream, List.length_append]
    have h_fits := h.delivered
    show shell.delivered ≤ _
    omega

theorem Shell.Written.finishes {shell : Shell} (h : shell.Written)
    (h_open : shell.answers.length < shell.requests) :
    Shell.Written { shell with answers := shell.answers ++ [shell.rest], rest := [] } ∧
      shell.stream <+: Shell.stream { shell with answers := shell.answers ++ [shell.rest], rest := [] } := by
  have h_stream : Shell.stream { shell with answers := shell.answers ++ [shell.rest], rest := [] } =
      shell.stream ++ END_MARKER := by
    rw [Shell.stream, Shell.stream, Shell.marked_append, List.append_nil, List.append_assoc]
    exact congrArg _ (List.append_nil _)
  refine ⟨⟨?_, fun a h_a => ?_, List.not_mem_nil, ?_⟩, ⟨END_MARKER, h_stream.symm⟩⟩
  · show (shell.answers ++ [shell.rest]).length ≤ shell.requests
    rw [List.length_append, List.length_singleton]
    omega
  · obtain h_a | h_a := List.mem_append.mp h_a
    · exact h.clean a h_a
    · rw [List.mem_singleton.mp h_a]
      exact h.clean_rest
  · rw [h_stream, List.length_append]
    have h_fits := h.delivered
    show shell.delivered ≤ _
    omega

/-- The first marker behind the answers that were taken ends the answer to the last line. -/
theorem Shell.Reads.next {shell : Shell} {k : Nat} {output : Text} (h : shell.Reads k output)
    (h_written : shell.Written) (h_requests : shell.requests = k + 1) {at_ : Nat}
    (h_index : TextSearch.indexOf END_MARKER output = some at_) :
    shell.answers[k]? = some (output.take at_) ∧
      shell.Reads (k + 1) (output.drop (at_ + END_MARKER.length)) := by
  obtain ⟨h_k, h_reads⟩ := h
  have h_stream : shell.stream =
      Shell.marked (shell.answers.take k) ++ (Shell.marked (shell.answers.drop k) ++ shell.rest) := by
    rw [Shell.stream, ← List.append_assoc, ← Shell.marked_append, List.take_append_drop]
  have h_output : output <+: Shell.marked (shell.answers.drop k) ++ shell.rest := by
    have h_taken := List.take_prefix shell.delivered shell.stream
    rw [h_reads, h_stream] at h_taken
    exact (List.prefix_append_right_inj _).mp h_taken
  have h_answered := h_written.answered
  cases h_drop : shell.answers.drop k with
  | nil =>
    -- What has arrived is part of an answer that is still being written.
    rw [h_drop] at h_output
    rw [no_marker fun h_mem => h_written.clean_rest (h_output.subset h_mem)] at h_index
    cases h_index
  | cons a more =>
    have h_length := congrArg List.length h_drop
    rw [List.length_drop, List.length_cons] at h_length
    have h_more : more = [] := List.eq_nil_of_length_eq_zero (by omega)
    have h_at : shell.answers[k]? = some a := by
      have h_head := congrArg List.head? h_drop
      rw [List.head?_drop] at h_head
      exact h_head
    have h_clean := h_written.clean a (List.mem_of_getElem? h_at)
    rw [h_drop, h_more, Shell.marked, List.flatMap_cons, List.flatMap_nil, List.append_nil]
      at h_output
    obtain ⟨h_take, -, h_whole⟩ := marker_at h_clean h_written.clean_rest h_output h_index
    refine ⟨h_take.symm ▸ h_at, by omega, ?_⟩
    rw [h_reads, List.take_add_one, h_at, Shell.marked_append, List.append_assoc]
    refine congrArg _ (h_whole.trans (congrArg (· ++ _) ?_))
    exact (List.append_nil _).symm

namespace Sampler

variable {s s' : Sampler} {i n : Nat}

/-- The query that waits was the last line of the shell, or all lines were answered. -/
def InStep (s : Sampler) (i k : Nat) : Prop :=
  match s.pending with
  | none => (s.shells i).requests = k
  | some p => (s.shells i).requests = k + 1 ∧ (p.query, i, k) ∈ s.asked

theorem InStep.settled {k : Nat} (h_pending : s.pending = none) (h : (s.shells i).requests = k) :
    InStep s i k := by
  rw [InStep, h_pending]
  exact h

structure Inv (s : Sampler) : Prop where
  once : (s.settled.map Prod.fst).Nodup
  settled_lt : ∀ q ∈ s.settled.map Prod.fst, q < s.queries
  accounted : ∀ q < s.queries, q ∉ s.settled.map Prod.fst → ∃ p, s.pending = some p ∧ p.query = q
  pending_open : ∀ p, s.pending = some p → p.query < s.queries ∧ p.query ∉ s.settled.map Prod.fst
  asked_once : (s.asked.map Prod.fst).Nodup
  asked_lt : ∀ q ∈ s.asked.map Prod.fst, q < s.queries
  own : ∀ q text, (q, Outcome.resolved text) ∈ s.settled →
    ∃ i k, (q, i, k) ∈ s.asked ∧ (s.shells i).answers[k]? = some text
  proc_lt : ∀ i, s.proc = some i → i < s.spawned
  proc_of_pending : s.pending.isSome = true → s.proc.isSome = true
  answer_timer : ∀ t, (t, SamplerTimer.answer) ∈ s.armed → ∃ q, s.pending = some ⟨q, t⟩
  idle_timer : ∀ t, (t, SamplerTimer.idle) ∈ s.armed → s.pending = none ∧ s.idleTimer = some t
  unborn : ∀ i, s.spawned ≤ i → s.shells i = {}
  written : ∀ i, (s.shells i).Written
  reads : ∀ i, s.proc = some i → ∃ k, (s.shells i).Reads k s.output ∧ InStep s i k

theorem Inv.neverMixes (h : Inv s) : NeverMixes s where
  once := h.once
  open_pending := h.accounted
  pending_open := fun p h_p => (h.pending_open p h_p).2
  asked_once := h.asked_once
  own := h.own

theorem inv_init : Inv {} where
  once := List.nodup_nil
  settled_lt := fun _ h => by cases h
  accounted := fun _ h => by cases h
  pending_open := fun _ h => by cases h
  asked_once := List.nodup_nil
  asked_lt := fun _ h => by cases h
  own := fun _ _ h => by cases h
  proc_lt := fun _ h => by cases h
  proc_of_pending := fun h => by cases h
  answer_timer := fun _ h => by cases h
  idle_timer := fun _ h => by cases h
  unborn := fun _ _ => rfl
  written := fun _ => ⟨Nat.le_refl 0, (fun _ h => by cases h), List.not_mem_nil, Nat.zero_le _⟩
  reads := fun _ h => by cases h

/-! ## Giving up -/

/-- A timer that is gone is no matter. -/
theorem Inv.disarm (h : Inv s) (keeps : Nat × SamplerTimer → Bool) :
    Inv { s with armed := s.armed.filter keeps } :=
  { h with
    answer_timer := fun t h_t => h.answer_timer t (List.mem_of_mem_filter h_t)
    idle_timer := fun t h_t => h.idle_timer t (List.mem_of_mem_filter h_t) }

theorem Inv.stop (h : Inv s) (h_pending : s.pending = none) : Inv s.stop :=
  { h with
    proc_lt := fun i h_i => by cases h_i
    proc_of_pending := fun h_some => by
      rw [show s.stop.pending = s.pending from rfl, h_pending] at h_some
      cases h_some
    answer_timer := fun t h_t => h.answer_timer t (List.mem_of_mem_filter h_t)
    idle_timer := fun t h_t => h.idle_timer t (List.mem_of_mem_filter h_t)
    reads := fun i h_i => by cases h_i }

/-- The query that waited is settled. -/
theorem Inv.settled {p : Pending} (h : Inv s) (h_p : s.pending = some p) (outcome : Outcome) :
    ((s.settle p.query outcome).settled.map Prod.fst).Nodup ∧
      (∀ q ∈ (s.settle p.query outcome).settled.map Prod.fst, q < s.queries) ∧
      ∀ q < s.queries, q ∈ (s.settle p.query outcome).settled.map Prod.fst := by
  obtain ⟨h_lt, h_open⟩ := h.pending_open p h_p
  have h_map : (s.settle p.query outcome).settled.map Prod.fst =
      s.settled.map Prod.fst ++ [p.query] := List.map_append
  rw [h_map]
  refine ⟨?_, fun q h_q => ?_, fun q h_q => ?_⟩
  · refine List.Nodup.append h.once (List.nodup_singleton _) fun q h_q h_eq => ?_
    rw [List.mem_singleton] at h_eq
    exact h_open (h_eq ▸ h_q)
  · obtain h_q | h_q := List.mem_append.mp h_q
    · exact h.settled_lt q h_q
    · rw [List.mem_singleton.mp h_q]
      exact h_lt
  · by_contra h_not
    obtain ⟨h_not, h_other⟩ := not_or.mp (fun h_mem => h_not (List.mem_append.mpr h_mem))
    obtain ⟨p', h_p', h_query⟩ := h.accounted q h_q h_not
    rw [h_p] at h_p'
    cases h_p'
    exact h_other (List.mem_singleton.mpr h_query.symm)

theorem Inv.fail (h : Inv s) (message : String) : Inv (s.fail message) := by
  rw [Sampler.fail]
  split
  · rename_i h_pending
    exact h.stop h_pending
  · rename_i p h_pending
    obtain ⟨h_once, h_lt, h_all⟩ := h.settled h_pending (.rejected message)
    refine { h with
      once := h_once
      settled_lt := h_lt
      accounted := fun q h_q h_not => absurd (h_all q h_q) h_not
      pending_open := fun _ h_p => by cases h_p
      own := fun q text h_mem => ?_
      proc_lt := fun _ h_i => by cases h_i
      proc_of_pending := fun h_some => by cases h_some
      answer_timer := fun t h_t => ?_
      idle_timer := fun t h_t => ?_
      reads := fun _ h_i => by cases h_i }
    · obtain h_mem | h_mem := List.mem_append.mp h_mem
      · exact h.own q text h_mem
      · cases List.mem_singleton.mp h_mem
    · obtain ⟨h_armed, h_kept⟩ := List.mem_filter.mp (List.mem_of_mem_filter h_t)
      obtain ⟨q, h_q⟩ := h.answer_timer t h_armed
      rw [h_pending] at h_q
      cases h_q
      exact absurd rfl (of_decide_eq_true h_kept)
    · have h_armed := List.mem_of_mem_filter (List.mem_of_mem_filter h_t)
      have h_none := (h.idle_timer t h_armed).1
      rw [h_pending] at h_none
      cases h_none

/-! ## What the shells do -/

/-- A shell writes more: what has arrived and what was answered stays. -/
theorem Inv.write (h : Inv s) (h_i : i < s.spawned) {shell : Shell} (h_written : shell.Written)
    (h_requests : shell.requests = (s.shells i).requests)
    (h_delivered : shell.delivered = (s.shells i).delivered)
    (h_answers : (s.shells i).answers <+: shell.answers)
    (h_stream : (s.shells i).stream <+: shell.stream) : Inv (s.setShell i shell) := by
  have h_self : (s.setShell i shell).shells i = shell := Function.update_self ..
  have h_other : ∀ j, j ≠ i → (s.setShell i shell).shells j = s.shells j := fun j h_j =>
    Function.update_of_ne h_j ..
  obtain ⟨more, h_more⟩ := h_answers
  refine { h with
    own := fun q text h_mem => ?_
    unborn := fun j h_j => ?_
    written := fun j => ?_
    reads := fun j h_j => ?_ }
  · obtain ⟨j, k, h_asked, h_text⟩ := h.own q text h_mem
    refine ⟨j, k, h_asked, ?_⟩
    by_cases h_eq : j = i
    · rw [h_eq] at h_text ⊢
      rw [h_self, ← h_more, List.getElem?_append_left (List.getElem?_eq_some_iff.mp h_text).1]
      exact h_text
    · rw [h_other j h_eq]
      exact h_text
  · have h_old := h.unborn j h_j
    have h_born : s.spawned ≤ j := h_j
    rw [h_other j (by omega)]
    exact h_old
  · by_cases h_eq : j = i
    · rw [h_eq, h_self]
      exact h_written
    · rw [h_other j h_eq]
      exact h.written j
  · obtain ⟨k, ⟨h_k, h_reads⟩, h_step⟩ := h.reads j h_j
    refine ⟨k, ?_, ?_⟩
    · by_cases h_eq : j = i
      · rw [h_eq] at h_k h_reads ⊢
        obtain ⟨tail, h_tail⟩ := h_stream
        have h_fits := (h.written i).delivered
        rw [h_self, Shell.Reads, h_delivered, ← h_tail, List.take_append_of_le_length h_fits,
          ← h_more, List.take_append_of_le_length h_k, List.length_append]
        exact ⟨by omega, h_reads⟩
      · rw [h_other j h_eq]
        exact ⟨h_k, h_reads⟩
    · by_cases h_eq : j = i
      · rw [h_eq] at h_step ⊢
        rw [InStep] at h_step ⊢
        rw [h_self, h_requests]
        exact h_step
      · rw [InStep] at h_step ⊢
        rw [h_other j h_eq]
        exact h_step

/-! ## A query -/

theorem Inv.ensureStarted (h : Inv s) (h_pending : s.pending = none) :
    Inv s.ensureStarted.1 ∧ s.ensureStarted.1.proc = some s.ensureStarted.2 ∧
      s.ensureStarted.1.pending = none := by
  rw [Sampler.ensureStarted]
  split
  · rename_i i h_proc
    exact ⟨h, h_proc, h_pending⟩
  · -- The number of the new shell is fresh, nothing is known of it yet.
    have h_fresh : s.shells s.spawned = {} := h.unborn _ (Nat.le_refl _)
    have h_shells : Function.update s.shells s.spawned {} = s.shells := by
      rw [← h_fresh]
      exact Function.update_eq_self ..
    rw [Sampler.setShell, h_shells]
    refine ⟨{ h with
      proc_lt := fun i h_i => ?_
      proc_of_pending := fun _ => rfl
      unborn := fun i h_i => h.unborn i (Nat.le_of_succ_le h_i)
      reads := fun i h_i => ⟨0, ?_, ?_⟩ }, rfl, h_pending⟩
    · cases h_i
      exact Nat.lt_succ_self _
    · cases h_i
      rw [h_fresh]
      exact ⟨Nat.le_refl 0, rfl⟩
    · cases h_i
      refine InStep.settled h_pending ?_
      rw [h_fresh]

theorem Inv.ask (h : Inv s) (h_pending : s.pending = none) (h_proc : s.proc = some i) :
    Inv (s.ask i) := by
  have h_self : (s.ask i).shells i = { s.shells i with requests := (s.shells i).requests + 1 } :=
    Function.update_self ..
  have h_other : ∀ j, j ≠ i → (s.ask i).shells j = s.shells j := fun j h_j =>
    Function.update_of_ne h_j ..
  have h_lt := h.proc_lt i h_proc
  have h_answers : ∀ j, ((s.ask i).shells j).answers = (s.shells j).answers := fun j => by
    by_cases h_eq : j = i
    · rw [h_eq, h_self]
    · rw [h_other j h_eq]
  -- The one timer that may have been armed was the idle one.
  have h_armed : (s.ask i).armed = [(s.timers, .answer)] := by
    have h_cleared : s.armed.filter (fun entry => some entry.1 ≠ s.idleTimer) = [] := by
      refine List.filter_eq_nil_iff.mpr fun entry h_entry => ?_
      obtain ⟨t, kind⟩ := entry
      cases kind with
      | answer =>
        obtain ⟨q, h_q⟩ := h.answer_timer t h_entry
        rw [h_pending] at h_q
        cases h_q
      | idle =>
        rw [(h.idle_timer t h_entry).2]
        exact fun h_ne => of_decide_eq_true h_ne rfl
    show s.armed.filter _ ++ [(s.timers, SamplerTimer.answer)] = _
    rw [h_cleared, List.nil_append]
  have h_asked : (s.ask i).asked.map Prod.fst = s.asked.map Prod.fst ++ [s.queries] := List.map_append
  refine {
    once := h.once
    settled_lt := fun q h_q => Nat.lt_succ_of_lt (h.settled_lt q h_q)
    accounted := fun q h_q h_not => ⟨_, rfl, ?_⟩
    pending_open := fun p h_p => ?_
    asked_once := ?_
    asked_lt := fun q h_q => ?_
    own := fun q text h_mem => ?_
    proc_lt := h.proc_lt
    proc_of_pending := fun _ => Option.isSome_iff_exists.mpr ⟨i, h_proc⟩
    answer_timer := fun t h_t => ?_
    idle_timer := fun t h_t => ?_
    unborn := fun j h_j => ?_
    written := fun j => ?_
    reads := fun j h_j => ?_ }
  · by_contra h_ne
    have h_le : q < s.queries + 1 := h_q
    have h_ne : s.queries ≠ q := h_ne
    obtain ⟨p, h_p, -⟩ := h.accounted q (by omega) h_not
    rw [h_pending] at h_p
    cases h_p
  · cases h_p
    exact ⟨Nat.lt_succ_self _, fun h_mem => Nat.lt_irrefl _ (h.settled_lt _ h_mem)⟩
  · rw [h_asked]
    refine List.Nodup.append h.asked_once (List.nodup_singleton _) fun q h_q h_eq => ?_
    rw [List.mem_singleton.mp h_eq] at h_q
    exact Nat.lt_irrefl _ (h.asked_lt _ h_q)
  · rw [h_asked] at h_q
    obtain h_q | h_q := List.mem_append.mp h_q
    · exact Nat.lt_succ_of_lt (h.asked_lt q h_q)
    · rw [List.mem_singleton.mp h_q]
      exact Nat.lt_succ_self _
  · obtain ⟨j, k, h_mem, h_text⟩ := h.own q text h_mem
    exact ⟨j, k, List.mem_append_left _ h_mem, (h_answers j).symm ▸ h_text⟩
  · rw [h_armed] at h_t
    cases List.mem_singleton.mp h_t
    exact ⟨_, rfl⟩
  · rw [h_armed] at h_t
    cases List.mem_singleton.mp h_t
  · have h_old := h.unborn j h_j
    have h_born : s.spawned ≤ j := h_j
    rw [h_other j (by omega)]
    exact h_old
  · by_cases h_eq : j = i
    · rw [h_eq, h_self]
      have h_written := h.written i
      exact { h_written with answered := Nat.le_succ_of_le h_written.answered }
    · rw [h_other j h_eq]
      exact h.written j
  · have h_j : s.proc = some j := h_j
    rw [h_proc] at h_j
    cases h_j
    obtain ⟨k, h_reads, h_step⟩ := h.reads i h_proc
    rw [InStep, h_pending] at h_step
    have h_step : (s.shells i).requests = k := h_step
    refine ⟨k, ?_, ?_, ?_⟩
    · rw [h_self]
      exact h_reads
    · rw [h_self, ← h_step]
    · rw [← h_step]
      exact List.mem_append_right _ (List.mem_singleton_self _)

theorem Inv.query (h : Inv s) : Inv s.query := by
  rw [Sampler.query]
  split
  · rename_i p h_p
    have h_map : (s.settle s.queries (.rejected "sample in progress")).settled.map Prod.fst =
        s.settled.map Prod.fst ++ [s.queries] := List.map_append
    refine { h with
      once := ?_
      settled_lt := fun q h_q => ?_
      accounted := fun q h_q h_not => ?_
      pending_open := fun p' h_p' => ?_
      asked_lt := fun q h_q => Nat.lt_succ_of_lt (h.asked_lt q h_q)
      own := fun q text h_mem => ?_ }
    · show ((s.settle s.queries _).settled.map Prod.fst).Nodup
      rw [h_map]
      refine List.Nodup.append h.once (List.nodup_singleton _) fun q h_q h_eq => ?_
      rw [List.mem_singleton.mp h_eq] at h_q
      exact Nat.lt_irrefl _ (h.settled_lt _ h_q)
    · rw [h_map] at h_q
      obtain h_q | h_q := List.mem_append.mp h_q
      · exact Nat.lt_succ_of_lt (h.settled_lt q h_q)
      · rw [List.mem_singleton.mp h_q]
        exact Nat.lt_succ_self _
    · rw [h_map] at h_not
      obtain ⟨h_not, h_ne⟩ := not_or.mp fun h_mem => h_not (List.mem_append.mpr h_mem)
      have h_le : q < s.queries + 1 := h_q
      have h_ne : q ≠ s.queries := fun h_eq => h_ne (List.mem_singleton.mpr h_eq)
      exact h.accounted q (by omega) h_not
    · obtain ⟨h_lt, h_open⟩ := h.pending_open p' h_p'
      refine ⟨Nat.lt_succ_of_lt h_lt, fun h_mem => ?_⟩
      rw [h_map] at h_mem
      obtain h_mem | h_mem := List.mem_append.mp h_mem
      · exact h_open h_mem
      · rw [List.mem_singleton.mp h_mem] at h_lt
        exact Nat.lt_irrefl _ h_lt
    · obtain h_mem | h_mem := List.mem_append.mp h_mem
      · exact h.own q text h_mem
      · cases List.mem_singleton.mp h_mem
  · rename_i h_pending
    obtain ⟨h_started, h_proc, h_none⟩ := h.ensureStarted h_pending
    exact h_started.ask h_none h_proc

/-! ## A chunk -/

/-- A chunk of the shell that runs goes on where the last one ended. -/
theorem Inv.arrive (h : Inv s) (h_i : i < s.spawned)
    (h_fits : (s.shells i).delivered + n ≤ (s.shells i).stream.length)
    (h_current : s.proc = some i ∨ s.proc = none) :
    Inv { s.setShell i { s.shells i with delivered := (s.shells i).delivered + n } with
      output := s.output ++ (s.shells i).chunk n } := by
  have h_self : (s.setShell i { s.shells i with delivered := (s.shells i).delivered + n }).shells i =
      { s.shells i with delivered := (s.shells i).delivered + n } := Function.update_self ..
  have h_other : ∀ j, j ≠ i →
      (s.setShell i { s.shells i with delivered := (s.shells i).delivered + n }).shells j =
        s.shells j := fun j h_j => Function.update_of_ne h_j ..
  refine { h with
    own := fun q text h_mem => ?_
    unborn := fun j h_j => ?_
    written := fun j => ?_
    reads := fun j h_j => ?_ }
  · obtain ⟨j, k, h_asked, h_text⟩ := h.own q text h_mem
    refine ⟨j, k, h_asked, ?_⟩
    by_cases h_eq : j = i
    · rw [h_eq] at h_text ⊢
      rw [h_self]
      exact h_text
    · rw [h_other j h_eq]
      exact h_text
  · have h_born : s.spawned ≤ j := h_j
    rw [h_other j (by omega)]
    exact h.unborn j h_born
  · by_cases h_eq : j = i
    · rw [h_eq, h_self]
      exact { h.written i with delivered := h_fits }
    · rw [h_other j h_eq]
      exact h.written j
  · have h_j : s.proc = some j := h_j
    obtain h_proc | h_proc := h_current
    · rw [h_proc] at h_j
      cases h_j
      obtain ⟨k, ⟨h_k, h_reads⟩, h_step⟩ := h.reads i h_proc
      refine ⟨k, ?_, ?_⟩
      · rw [h_self]
        refine ⟨h_k, ?_⟩
        show (s.shells i).stream.take ((s.shells i).delivered + n) =
          Shell.marked ((s.shells i).answers.take k) ++ (s.output ++ (s.shells i).chunk n)
        rw [List.take_add, h_reads, List.append_assoc]
        rfl
      · rw [InStep] at h_step ⊢
        rw [h_self]
        exact h_step
    · rw [h_proc] at h_j
      cases h_j

/-- The marker has arrived, the query gets what stands before it. -/
theorem Inv.resolve {p : Pending} {at_ : Nat} (h : Inv s) (h_p : s.pending = some p)
    (h_index : TextSearch.indexOf END_MARKER s.output = some at_) :
    Inv (({ s.clearTimeout (some p.timer) with
        output := s.output.drop (at_ + END_MARKER.length)
        pending := none
        idleTimer := some s.timers }.setTimeout .idle).settle p.query
          (.resolved (s.output.take at_))) := by
  obtain ⟨h_once, h_lt, h_all⟩ := h.settled h_p (.resolved (s.output.take at_))
  obtain ⟨i, h_proc⟩ := Option.isSome_iff_exists.mp (h.proc_of_pending (Option.isSome_iff_exists.mpr ⟨p, h_p⟩))
  obtain ⟨k, h_reads, h_step⟩ := h.reads i h_proc
  rw [InStep, h_p] at h_step
  obtain ⟨h_requests, h_asked⟩ : (s.shells i).requests = k + 1 ∧ (p.query, i, k) ∈ s.asked := h_step
  obtain ⟨h_text, h_next⟩ := h_reads.next (h.written i) h_requests h_index
  -- The one timer that may have been armed was that of the query.
  have h_cleared : s.armed.filter (fun entry => some entry.1 ≠ some p.timer) = [] := by
    refine List.filter_eq_nil_iff.mpr fun entry h_entry => ?_
    obtain ⟨t, kind⟩ := entry
    cases kind with
    | answer =>
      obtain ⟨q, h_q⟩ := h.answer_timer t h_entry
      rw [h_p] at h_q
      cases h_q
      exact fun h_ne => of_decide_eq_true h_ne rfl
    | idle =>
      have h_none := (h.idle_timer t h_entry).1
      rw [h_p] at h_none
      cases h_none
  have h_armed : s.armed.filter (fun entry => some entry.1 ≠ some p.timer) ++
      [(s.timers, SamplerTimer.idle)] = [(s.timers, .idle)] := by
    rw [h_cleared, List.nil_append]
  refine { h with
    once := h_once
    settled_lt := h_lt
    accounted := fun q h_q h_not => absurd (h_all q h_q) h_not
    pending_open := fun _ h_none => by cases h_none
    own := fun q text h_mem => ?_
    proc_of_pending := fun h_some => by cases h_some
    answer_timer := fun t h_t => ?_
    idle_timer := fun t h_t => ⟨rfl, ?_⟩
    reads := fun j h_j => ?_ }
  · obtain h_mem | h_mem := List.mem_append.mp h_mem
    · exact h.own q text h_mem
    · cases List.mem_singleton.mp h_mem
      exact ⟨i, k, h_asked, h_text⟩
  · have h_t : (t, SamplerTimer.answer) ∈
        s.armed.filter (fun entry => some entry.1 ≠ some p.timer) ++ [(s.timers, SamplerTimer.idle)] := h_t
    rw [h_armed] at h_t
    cases List.mem_singleton.mp h_t
  · have h_t : (t, SamplerTimer.idle) ∈
        s.armed.filter (fun entry => some entry.1 ≠ some p.timer) ++ [(s.timers, SamplerTimer.idle)] := h_t
    rw [h_armed] at h_t
    cases List.mem_singleton.mp h_t
    rfl
  · have h_j : s.proc = some j := h_j
    rw [h_proc] at h_j
    cases h_j
    exact ⟨k + 1, h_next, InStep.settled rfl h_requests⟩

theorem Inv.data (h : Inv s) (h_i : i < s.spawned)
    (h_fits : (s.shells i).delivered + n ≤ (s.shells i).stream.length)
    (h_current : s.proc = some i ∨ s.proc = none) :
    Inv ((s.setShell i { s.shells i with delivered := (s.shells i).delivered + n }).onData
      ((s.shells i).chunk n)) := by
  have h_arrived := h.arrive h_i h_fits h_current
  rw [Sampler.onData]
  split
  · rename_i at_ p h_index h_p
    exact h_arrived.resolve h_p h_index
  · exact h_arrived

/-! ## Every run -/

theorem Inv.shellFailed (h : Inv s) (message : String) : Inv (s.shellFailed i message) := by
  rw [Sampler.shellFailed]
  split
  · exact h.fail message
  · exact h

/-- A timer fires: the query in wait fails, or the idle shell goes. -/
theorem Inv.timer (h : Inv s) {t : Nat} (h_step : step s (.timer t) = some s') : Inv s' := by
  have h_fired := h.disarm fun entry => entry.1 ≠ t
  rw [step] at h_step
  split at h_step
  · cases h_step
    exact h_fired.fail _
  · rename_i h_kind
    cases h_step
    obtain ⟨pre, post, h_split, -⟩ := List.lookup_eq_some_iff.mp h_kind
    have h_mem : (t, SamplerTimer.idle) ∈ s.armed := by
      rw [h_split]
      exact List.mem_append_right _ List.mem_cons_self
    exact h_fired.stop (h.idle_timer t h_mem).1
  · cases h_step

theorem Inv.step {e : Event} (h : Inv s) (h_guard : fromCurrent s e = true)
    (h_step : step s e = some s') : Inv s' := by
  cases e with
  | query =>
    cases h_step
    exact h.query
  | writes i rows =>
    rw [Sampler.step] at h_step
    split at h_step
    · rename_i h_can
      cases h_step
      obtain ⟨h_written, h_stream⟩ := (h.written i).writes h_can.2
      exact h.write h_can.1 h_written rfl rfl (List.prefix_refl _) h_stream
    · cases h_step
  | finishes i =>
    rw [Sampler.step] at h_step
    split at h_step
    · rename_i h_can
      cases h_step
      obtain ⟨h_written, h_stream⟩ := (h.written i).finishes h_can.2
      exact h.write h_can.1 h_written rfl rfl (List.prefix_append _ _) h_stream
    · cases h_step
  | data i n =>
    rw [Sampler.step] at h_step
    split at h_step
    · rename_i h_can
      cases h_step
      refine h.data h_can.1 h_can.2 ?_
      obtain h_proc | h_proc := (Bool.or_eq_true _ _).mp h_guard
      · exact .inl (of_decide_eq_true h_proc)
      · exact .inr (Option.isNone_iff_eq_none.mp h_proc)
    · cases h_step
  | error i message =>
    rw [Sampler.step] at h_step
    split at h_step
    · cases h_step
      exact h.shellFailed message
    · cases h_step
  | exit i =>
    rw [Sampler.step] at h_step
    split at h_step
    · cases h_step
      exact h.shellFailed _
    · cases h_step
  | timer t => exact h.timer h_step

/-- In every run in which no chunk of a replaced shell arrives while another shell runs, no
    answer goes to another request than its own. -/
theorem neverMixes_of_reachableUnder
    (h : machine.ReachableUnder (fun s e => fromCurrent s e = true) s) : NeverMixes s :=
  Inv.neverMixes <| h.invariant
    (fun s h_init => by
      rw [show s = {} from h_init]
      exact inv_init)
    fun s e s' h_inv h_guard h_step => h_inv.step h_guard h_step

/-- Two queries: the first shell does not answer in time, the second answers in two chunks that
    are cut inside the marker. -/
def restarted : List Event :=
  [.query, .writes 0 "1 0 5".toList, .timer 0, .data 0 3, .query, .writes 1 "2 0 7".toList,
    .finishes 1, .data 1 10, .data 1 8]

theorem neverMixes_restarted :
    ∃ s, machine.runUnder fromCurrent {} restarted = some s ∧
      s.settled = [(0, .rejected "PowerShell did not answer in time"),
        (1, .resolved "2 0 7".toList)] ∧ NeverMixes s :=
  ⟨_, rfl, rfl, neverMixes_of_reachableUnder
    (machine.reachableUnder_of_runUnder restarted (.init rfl) rfl)⟩

/-- The first shell answers after its query timed out and the second one was started. -/
def answersLate : List Event :=
  [.query, .writes 0 "1 0 5".toList, .timer 0, .query, .finishes 0, .data 0 18]

/-- The second query gets the answer of the first shell. -/
theorem late_answer_mixes :
    ∃ s, machine.Reachable s ∧ (1, Outcome.resolved "1 0 5".toList) ∈ s.settled ∧
      (1, 1, 0) ∈ s.asked ∧ (s.shells 1).answers = [] ∧ ¬ NeverMixes s := by
  let s := (machine.run {} answersLate).get rfl
  have h_run : machine.run {} answersLate = some s := (Option.some_get (x := machine.run {} answersLate) rfl).symm
  refine ⟨s, machine.reachable_of_run answersLate (.init rfl) h_run, ?_, ?_, rfl, fun h => ?_⟩
  · decide
  · decide
  · obtain ⟨i, k, h_asked, h_text⟩ := h.own 1 "1 0 5".toList (by decide)
    have h_asked : (1, i, k) ∈ [(0, 0, 0), (1, 1, 0)] := h_asked
    obtain h_first | h_second := List.mem_cons.mp h_asked
    · cases h_first
    · cases List.mem_singleton.mp h_second
      cases h_text

end Sampler

end Kubek.MetricsHistory
