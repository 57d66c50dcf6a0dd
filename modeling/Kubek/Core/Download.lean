/-
  Kubek.Core.Download

  `download` of `core/utils/download.ts`: a body is read chunk by chunk into `dest.part`,
  hashed on the way, and moved to `dest` once every check has passed.

  The function waits for one thing at a time (`Phase`); everything else happens around it:
  the source, the file stream with its buffer, the timers and the caller's signal. A stream
  that has emitted its error takes no more chunks and emits nothing for them, so a chunk
  written then is waited for without end (`chunk_behind_error`). In runs where no chunk comes
  behind the error the download is all or nothing (`allOrNothing`).

  Callbacks do not throw and removing the part file does not fail. `fetch` follows its signal:
  a read that is under way ends once it is aborted. Progress in percent is left out.
-/

import Kubek.Lib.Machine

namespace Kubek.Download

open Transition

abbrev Bytes := List UInt8

/-! ## Options -/

inductive Algorithm
  | sha1
  | sha256
  | sha512
  deriving DecidableEq, Repr

abbrev Hex := List Char

structure Options where
  /-- Expected hex hashes. -/
  hashes : List (Algorithm × Hex)
  maxBytes : Option Nat

/-- `createHash(algorithm)`, fed with the bytes, in hex. -/
abbrev Digest := Algorithm → Bytes → Hex

/-- `hashers`: the algorithms with a hash to compare. -/
def Options.hashers (options : Options) : List (Algorithm × Hex) :=
  options.hashes.filter fun h => h.2 ≠ []

/-- The loop over `hashers` finds no difference. -/
def Options.matches (options : Options) (digest : Digest) (content : Bytes) : Bool :=
  options.hashers.all fun h => digest h.1 content == h.2.map Char.toLower

/-- `options.maxBytes !== undefined && received > options.maxBytes`. -/
def Options.tooLarge (options : Options) (received : Nat) : Bool :=
  match options.maxBytes with
  | none => false
  | some limit => limit < received

/-! ## State -/

/-- Why the promise rejects. -/
inductive Failure
  | http
  | tooLarge
  | integrity
  | timeout
  | aborted
  /-- `fetch` or a read of the body. -/
  | source
  /-- The stream's error, or a file operation. -/
  | disk
  deriving DecidableEq, Repr

inductive Phase
  /-- `await fetchImpl(..)`. -/
  | fetching
  /-- `await fs.mkdir(..)`. -/
  | preparing
  /-- `await reader.read()`. -/
  | reading
  /-- Between "drain" and "error", a chunk of `size` bytes being written. -/
  | draining (size : Nat)
  /-- `stream.end` until its callback. -/
  | ending
  /-- `await fs.rename(part, dest)`. -/
  | moving
  /-- The catch block, until "close". -/
  | closing (failure : Failure)
  /-- `await fs.rm(part)`. -/
  | removing (failure : Failure)
  | resolved
  | rejected (failure : Failure)
  deriving DecidableEq, Repr

inductive Health
  | alive
  /-- Destroyed with an error that is about to be emitted. -/
  | failing
  /-- "error" was emitted, "close" is to come. -/
  | failed
  /-- Finished, or destroyed by `destroy`; "close" is to come. -/
  | destroyed
  | closed
  deriving DecidableEq, Repr

/-- The write stream of `dest.part`. -/
structure Stream where
  opening : Bool
  health : Health
  ended : Bool
  /-- A write has returned `false` and "drain" is to come. -/
  needDrain : Bool
  buffer : List Bytes
  deriving DecidableEq, Repr

def Stream.fresh : Stream := ⟨true, .alive, false, false, []⟩

/-- `stream.destroy()`. -/
def Stream.destroy (stream : Stream) : Stream :=
  if stream.health = .alive then { stream with health := .destroyed, buffer := [] } else stream

structure State where
  /-- What the source is going to send. -/
  incoming : List Bytes
  phase : Phase
  aborted : Bool
  /-- `timeoutReason` is set. -/
  timedOut : Bool
  out : Option Stream
  received : Nat
  /-- What the hashers were fed with. -/
  hashed : Bytes
  reported : Nat
  dest : Option Bytes
  part : Option Bytes
  /-- The bytes read from the body. -/
  body : Bytes
  /-- The sum of what `onBytes` was called with. -/
  balance : Int
  deriving DecidableEq, Repr

inductive Event
  /-- The caller's signal, and a timer. -/
  | abort
  | timeout
  | fetchFails
  | responds (ok : Bool)
  | makesDir
  | mkdirFails
  /-- A read ends; `full` is what the stream's buffer says to the chunk. -/
  | reads (full : Bool)
  | readsEnd
  | readFails
  | opens
  | openFails
  | flushes
  | writeFails
  | emitsError
  | finishes
  | closes
  | renames
  | renameFails
  | removes
  deriving DecidableEq, Repr

/-! ## The function -/

namespace State

variable (s : State)

/-- What `failIfAborted` throws. -/
def abortFailure : Failure := if s.timedOut then .timeout else .aborted

/-- The catch block. -/
def fail (failure : Failure) : State :=
  match s.out with
  | none => { s with phase := .removing failure }
  | some stream =>
      if stream.health = .closed then { s with phase := .removing failure }
      else { s with phase := .closing failure, out := some stream.destroy }

/-- A chunk of `size` bytes is written: what follows in the loop. -/
def report (size : Nat) : State :=
  { s with phase := .reading, reported := s.reported + size, balance := s.balance + size }

/-- The loop on a chunk. -/
def onChunk (options : Options) (stream : Stream) (chunk : Bytes) (full : Bool) : State :=
  let s := { s with incoming := s.incoming.tail, body := s.body ++ chunk }
  if s.aborted then s.fail s.abortFailure
  else
    let s := { s with received := s.received + chunk.length }
    if options.tooLarge s.received then s.fail .tooLarge
    else
      let s := { s with hashed := s.hashed ++ chunk }
      if stream.health = .alive then
        let s := { s with
          out := some { stream with buffer := stream.buffer ++ [chunk], needDrain := full } }
        if full then { s with phase := .draining chunk.length } else s.report chunk.length
      else
        -- a destroyed stream refuses the chunk: `write` returns `false`
        { s with phase := .draining chunk.length }

/-- The end of the body. -/
def onEnd (stream : Stream) : State :=
  if s.aborted then s.fail s.abortFailure
  else if stream.health = .alive then
    { s with phase := .ending, out := some { stream with ended := true } }
  else s.fail .disk

/-- The hashes are compared. -/
def onFinish (options : Options) (digest : Digest) : State :=
  if options.matches digest s.hashed then { s with phase := .moving } else s.fail .integrity

def unsettled : Bool :=
  match s.phase with
  | .resolved | .rejected _ => false
  | _ => true

/-- What the stream emits, on a stream that exists. -/
def onStream (options : Options) (digest : Digest) (stream : Stream) : Event → Option State
  | .opens =>
      if stream.opening then
        some { s with out := some { stream with opening := false }, part := some [] }
      else none
  | .openFails =>
      if stream.opening then
        let health := if stream.health = .alive then .failing else stream.health
        some { s with out := some { stream with opening := false, health := health, buffer := [] } }
      else none
  | .flushes =>
      match stream.buffer with
      | [] => none
      | chunk :: rest =>
          if stream.opening ∨ stream.health ≠ .alive then none
          else
            let drained := rest.isEmpty && stream.needDrain
            let s := { s with
              part := s.part.map (· ++ chunk)
              out := some { stream with buffer := rest, needDrain := stream.needDrain && !drained } }
            match drained, s.phase with
            | true, .draining size => some (s.report size)
            | _, _ => some s
  | .writeFails =>
      if stream.opening = false ∧ stream.health = .alive ∧ stream.buffer ≠ [] then
        some { s with out := some { stream with health := .failing, buffer := [] } }
      else none
  | .emitsError =>
      if stream.health = .failing then
        let s := { s with out := some { stream with health := .failed } }
        match s.phase with
        | .draining _ | .ending => some (s.fail .disk)
        | _ => some s
      else none
  | .finishes =>
      if stream.opening = false ∧ stream.health = .alive ∧ stream.ended ∧ stream.buffer = [] then
        let s := { s with out := some { stream with health := .destroyed } }
        match s.phase with
        | .ending => some (s.onFinish options digest)
        | _ => some s
      else none
  | .closes =>
      if stream.opening = false ∧ (stream.health = .failed ∨ stream.health = .destroyed) then
        let s := { s with out := some { stream with health := .closed } }
        match s.phase with
        | .closing failure => some { s with phase := .removing failure }
        | _ => some s
      else none
  | _ => none

def step (options : Options) (digest : Digest) (e : Event) : Option State :=
  if s.unsettled = false then none
  else
    match e with
    | .abort => if s.aborted then none else some { s with aborted := true }
    | .timeout =>
        if s.timedOut then none else some { s with aborted := true, timedOut := true }
    | .fetchFails =>
        if s.phase = .fetching then some (s.fail (if s.aborted then s.abortFailure else .source))
        else none
    | .responds ok =>
        if s.phase ≠ .fetching then none
        else if s.aborted then some (s.fail s.abortFailure)
        else if ok then some { s with phase := .preparing }
        else some (s.fail .http)
    | .makesDir =>
        if s.phase = .preparing then some { s with phase := .reading, out := some .fresh }
        else none
    | .mkdirFails => if s.phase = .preparing then some (s.fail .disk) else none
    | .reads full =>
        match s.phase, s.incoming, s.out with
        | .reading, chunk :: _, some stream => some (s.onChunk options stream chunk full)
        | _, _, _ => none
    | .readsEnd =>
        match s.phase, s.out with
        | .reading, some stream =>
            -- the body is over, or the reader was cancelled
            if s.incoming = [] ∨ s.aborted then some (s.onEnd stream) else none
        | _, _ => none
    | .readFails => if s.phase = .reading then some (s.fail .source) else none
    | .renames =>
        if s.phase = .moving then
          some { s with phase := .resolved, dest := s.part, part := none }
        else none
    | .renameFails => if s.phase = .moving then some (s.fail .disk) else none
    | .removes =>
        match s.phase with
        | .removing failure =>
            some { s with
              phase := .rejected failure
              part := none
              balance := if s.reported = 0 then s.balance else s.balance - s.reported }
        | _ => none
    | e =>
        match s.out with
        | none => none
        | some stream => s.onStream options digest stream e

end State

/-! ## What a step can do -/

/-- The kinds of steps. -/
inductive Move (options : Options) (digest : Digest) (s : State) (e : Event) : State → Prop
  | aborts (h : s.aborted = false) : Move options digest s e { s with aborted := true }
  | timesOut (h : s.timedOut = false) :
      Move options digest s e { s with aborted := true, timedOut := true }
  | fails (failure : Failure)
      (h : s.phase = .fetching ∨ s.phase = .preparing ∨ s.phase = .reading ∨ s.phase = .moving) :
      Move options digest s e (s.fail failure)
  | prepares (h : s.phase = .fetching) : Move options digest s e { s with phase := .preparing }
  | starts (h : s.phase = .preparing) :
      Move options digest s e { s with phase := .reading, out := some .fresh }
  | reads (stream : Stream) (chunk : Bytes) (rest : List Bytes) (full : Bool)
      (h_e : e = .reads full) (h : s.phase = .reading) (h_out : s.out = some stream)
      (h_incoming : s.incoming = chunk :: rest) :
      Move options digest s e (s.onChunk options stream chunk full)
  | readsEnd (stream : Stream) (h : s.phase = .reading) (h_out : s.out = some stream) :
      Move options digest s e (s.onEnd stream)
  | renames (h : s.phase = .moving) :
      Move options digest s e { s with phase := .resolved, dest := s.part, part := none }
  | removes (failure : Failure) (h : s.phase = .removing failure) :
      Move options digest s e { s with
        phase := .rejected failure
        part := none
        balance := if s.reported = 0 then s.balance else s.balance - s.reported }
  | stream (stream : Stream) (s' : State) (h_out : s.out = some stream)
      (h : s.onStream options digest stream e = some s') : Move options digest s e s'

/-- The kinds of steps of the stream. -/
inductive Emission (options : Options) (digest : Digest) (s : State) (stream : Stream) : State → Prop
  | opens (h : stream.opening = true) : Emission options digest s stream
      { s with out := some { stream with opening := false }, part := some [] }
  | openFails (h : stream.opening = true) : Emission options digest s stream
      { s with out := some { stream with
        opening := false
        health := if stream.health = .alive then .failing else stream.health
        buffer := [] } }
  | flushes (chunk : Bytes) (rest : List Bytes) (needDrain : Bool)
      (h_buffer : stream.buffer = chunk :: rest) (h_open : stream.opening = false)
      (h_alive : stream.health = .alive)
      -- a chunk that is waited for stays in the buffer until the last flush
      (h_wait : ∀ size, s.phase = .draining size →
        needDrain = stream.needDrain ∧ (stream.needDrain = true → rest ≠ [])) :
      Emission options digest s stream
        { s with
          part := s.part.map (· ++ chunk)
          out := some { stream with buffer := rest, needDrain := needDrain } }
  | drains (chunk : Bytes) (size : Nat) (h : s.phase = .draining size)
      (h_buffer : stream.buffer = [chunk]) (h_open : stream.opening = false)
      (h_alive : stream.health = .alive) : Emission options digest s stream
        (State.report { s with
          part := s.part.map (· ++ chunk)
          out := some { stream with buffer := [], needDrain := false } } size)
  | writeFails (h_open : stream.opening = false) (h_alive : stream.health = .alive) :
      Emission options digest s stream
        { s with out := some { stream with health := .failing, buffer := [] } }
  | wakesWithError (h : stream.health = .failing)
      (h_phase : s.phase = .ending ∨ ∃ size, s.phase = .draining size) :
      Emission options digest s stream
        (State.fail { s with out := some { stream with health := .failed } } .disk)
  | error (h : stream.health = .failing) (h_ending : s.phase ≠ .ending)
      (h_draining : ∀ size, s.phase ≠ .draining size) : Emission options digest s stream
        { s with out := some { stream with health := .failed } }
  | finishes (h_phase : s.phase = .ending) (h_open : stream.opening = false)
      (h_alive : stream.health = .alive) (h_buffer : stream.buffer = []) :
      Emission options digest s stream
        (State.onFinish { s with out := some { stream with health := .destroyed } } options digest)
  | finishesUnasked (h_phase : s.phase ≠ .ending) (h_alive : stream.health = .alive)
      (h_open : stream.opening = false) (h_ended : stream.ended = true) :
      Emission options digest s stream { s with out := some { stream with health := .destroyed } }
  | closesLast (failure : Failure) (h : s.phase = .closing failure)
      (h_open : stream.opening = false) : Emission options digest s stream
        { s with phase := .removing failure, out := some { stream with health := .closed } }
  | closes (h_health : stream.health = .failed ∨ stream.health = .destroyed)
      (h_open : stream.opening = false) (h : ∀ failure, s.phase ≠ .closing failure) :
      Emission options digest s stream { s with out := some { stream with health := .closed } }

section Steps

variable {options : Options} {digest : Digest} {s s' : State} {stream : Stream} {e : Event}

theorem emission_of_onStream (h : s.onStream options digest stream e = some s') :
    Emission options digest s stream s' := by
  cases e with
  | opens =>
    obtain ⟨h_open, h⟩ := Option.ite_none_right_eq_some.mp h
    rw [← Option.some.inj h]
    exact .opens h_open
  | openFails =>
    obtain ⟨h_open, h⟩ := Option.ite_none_right_eq_some.mp h
    rw [← Option.some.inj h]
    exact .openFails h_open
  | flushes =>
    rw [State.onStream] at h
    split at h
    · cases h
    · rename_i chunk rest h_buffer
      obtain ⟨h_free, h⟩ := Option.ite_none_left_eq_some.mp h
      rw [not_or, Bool.not_eq_true, not_not] at h_free
      obtain ⟨h_open, h_alive⟩ := h_free
      dsimp only at h
      split at h
      · rename_i size h_drained h_phase
        rw [Bool.and_eq_true, List.isEmpty_iff] at h_drained
        obtain ⟨rfl, h_need⟩ := h_drained
        rw [← Option.some.inj h, h_need]
        exact .drains chunk size h_phase h_buffer h_open h_alive
      · rename_i h_not
        rw [← Option.some.inj h]
        refine .flushes chunk rest _ h_buffer h_open h_alive fun size h_phase => ?_
        have h_drained : (rest.isEmpty && stream.needDrain) = false := by
          rw [← Bool.not_eq_true]
          exact fun h_drained => h_not size h_drained h_phase
        refine ⟨by rw [h_drained]; simp, fun h_need h_rest => ?_⟩
        rw [h_need, h_rest] at h_drained
        cases h_drained
  | writeFails =>
    obtain ⟨⟨h_open, h_alive, -⟩, h⟩ := Option.ite_none_right_eq_some.mp h
    rw [← Option.some.inj h]
    exact .writeFails h_open h_alive
  | emitsError =>
    obtain ⟨h_failing, h⟩ := Option.ite_none_right_eq_some.mp h
    dsimp only at h
    split at h
    · rename_i size h_phase
      rw [← Option.some.inj h]
      exact .wakesWithError h_failing (.inr ⟨size, h_phase⟩)
    · rename_i h_phase
      rw [← Option.some.inj h]
      exact .wakesWithError h_failing (.inl h_phase)
    · rename_i h_draining h_ending
      rw [← Option.some.inj h]
      exact .error h_failing h_ending h_draining
  | finishes =>
    obtain ⟨⟨h_open, h_alive, h_ended, h_buffer⟩, h⟩ := Option.ite_none_right_eq_some.mp h
    dsimp only at h
    split at h
    · rename_i h_phase
      rw [← Option.some.inj h]
      exact .finishes h_phase h_open h_alive h_buffer
    · rename_i h_phase
      rw [← Option.some.inj h]
      exact .finishesUnasked h_phase h_alive h_open h_ended
  | closes =>
    obtain ⟨⟨h_open, h_health⟩, h⟩ := Option.ite_none_right_eq_some.mp h
    dsimp only at h
    split at h
    · rename_i failure h_phase
      rw [← Option.some.inj h]
      exact .closesLast failure h_phase h_open
    · rename_i h_phase
      rw [← Option.some.inj h]
      exact .closes h_health h_open h_phase
  | _ => cases h

theorem move_of_step (h : s.step options digest e = some s') :
    s.unsettled = true ∧ Move options digest s e s' := by
  rw [State.step.eq_def] at h
  split at h
  · cases h
  · rename_i h_unsettled
    refine ⟨by simpa using h_unsettled, ?_⟩
    have h_stream : ∀ e, (match s.out with
        | none => none
        | some stream => s.onStream options digest stream e) = some s' →
        Move options digest s e s' := by
      intro e h
      split at h
      · cases h
      · rename_i stream h_out
        exact .stream stream s' h_out h
    cases e with
    | abort =>
      dsimp only at h
      split at h
      · cases h
      · rename_i h_aborted
        obtain rfl := Option.some.inj h
        exact .aborts (by simpa using h_aborted)
    | timeout =>
      dsimp only at h
      split at h
      · cases h
      · rename_i h_timedOut
        obtain rfl := Option.some.inj h
        exact .timesOut (by simpa using h_timedOut)
    | fetchFails =>
      obtain ⟨h_phase, h⟩ := Option.ite_none_right_eq_some.mp h
      rw [← Option.some.inj h]
      exact .fails _ (.inl h_phase)
    | responds ok =>
      obtain ⟨h_phase, h⟩ := Option.ite_none_left_eq_some.mp h
      rw [not_not] at h_phase
      split at h
      · rw [← Option.some.inj h]
        exact .fails _ (.inl h_phase)
      · split at h
        · rw [← Option.some.inj h]
          exact .prepares h_phase
        · rw [← Option.some.inj h]
          exact .fails _ (.inl h_phase)
    | makesDir =>
      obtain ⟨h_phase, h⟩ := Option.ite_none_right_eq_some.mp h
      rw [← Option.some.inj h]
      exact .starts h_phase
    | mkdirFails =>
      obtain ⟨h_phase, h⟩ := Option.ite_none_right_eq_some.mp h
      rw [← Option.some.inj h]
      exact .fails _ (.inr (.inl h_phase))
    | reads full =>
      dsimp only at h
      split at h
      · rename_i h_phase h_incoming h_out
        rw [← Option.some.inj h]
        exact .reads _ _ _ full rfl h_phase h_out h_incoming
      · cases h
    | readsEnd =>
      dsimp only at h
      split at h
      · rename_i h_phase h_out
        obtain ⟨-, h⟩ := Option.ite_none_right_eq_some.mp h
        rw [← Option.some.inj h]
        exact .readsEnd _ h_phase h_out
      · cases h
    | readFails =>
      obtain ⟨h_phase, h⟩ := Option.ite_none_right_eq_some.mp h
      rw [← Option.some.inj h]
      exact .fails _ (.inr (.inr (.inl h_phase)))
    | renames =>
      obtain ⟨h_phase, h⟩ := Option.ite_none_right_eq_some.mp h
      rw [← Option.some.inj h]
      exact .renames h_phase
    | renameFails =>
      obtain ⟨h_phase, h⟩ := Option.ite_none_right_eq_some.mp h
      rw [← Option.some.inj h]
      exact .fails _ (.inr (.inr (.inr h_phase)))
    | removes =>
      dsimp only at h
      split at h
      · rename_i failure h_phase
        rw [← Option.some.inj h]
        exact .removes failure h_phase
      · cases h
    | opens => exact h_stream .opens h
    | openFails => exact h_stream .openFails h
    | flushes => exact h_stream .flushes h
    | writeFails => exact h_stream .writeFails h
    | emitsError => exact h_stream .emitsError h
    | finishes => exact h_stream .finishes h
    | closes => exact h_stream .closes h

end Steps

/-! ## No run goes on for ever -/

def Phase.rank : Phase → Nat
  | .fetching => 20
  | .preparing => 14
  | .draining _ => 8
  | .reading => 7
  | .ending => 6
  | .moving => 5
  | .closing _ => 4
  | .removing _ => 3
  | .resolved | .rejected _ => 0

def Health.rank : Health → Nat
  | .alive => 3
  | .failing => 2
  | .failed | .destroyed => 1
  | .closed => 0

def Stream.rank (stream : Stream) : Nat :=
  stream.opening.toNat + stream.health.rank + stream.buffer.length

/-- How many steps are left at most. -/
def State.rank (s : State) : Nat :=
  3 * s.incoming.length + s.phase.rank + (s.out.map Stream.rank).getD 0 +
    (!s.aborted).toNat + (!s.timedOut).toNat

section Rank

variable {options : Options} {digest : Digest} {s s' : State} {stream : Stream} {e : Event}

theorem rank_destroy (stream : Stream) : stream.destroy.rank ≤ stream.rank := by
  rw [Stream.destroy]
  split
  · rename_i h_alive
    simp only [Stream.rank, h_alive, Health.rank, List.length_nil]
    omega
  · exact Nat.le_refl _

theorem rank_fail (s : State) (failure : Failure) :
    (s.fail failure).rank + s.phase.rank ≤ s.rank + 4 := by
  rw [State.fail]
  split
  · simp only [State.rank, Phase.rank]
    omega
  · rename_i stream h_out
    have h_destroy := rank_destroy stream
    split
    · simp only [State.rank, Phase.rank]
      omega
    · simp only [State.rank, Phase.rank, h_out, Option.map_some, Option.getD_some]
      omega

theorem rank_onChunk {chunk : Bytes} {rest : List Bytes} (h : s.phase = .reading)
    (h_out : s.out = some stream) (h_incoming : s.incoming = chunk :: rest) (full : Bool) :
    (s.onChunk options stream chunk full).rank < s.rank := by
  have h_fail : ∀ (t : State) (failure : Failure), t.phase = .reading → t.incoming = rest →
      t.out = s.out → t.aborted = s.aborted → t.timedOut = s.timedOut →
      (t.fail failure).rank < s.rank := by
    intro t failure h_phase h_rest h_t h_aborted h_timedOut
    have h_rank := rank_fail t failure
    simp only [State.rank, Phase.rank, h_phase, h_rest, h_t, h_aborted, h_timedOut, h, h_incoming,
      List.length_cons] at h_rank ⊢
    omega
  rw [State.onChunk]
  dsimp only
  split
  · exact h_fail _ _ h (by rw [h_incoming]; rfl) rfl rfl rfl
  · split
    · exact h_fail _ _ h (by rw [h_incoming]; rfl) rfl rfl rfl
    · split
      · split
        · simp only [State.rank, Stream.rank, Phase.rank, h, h_out, h_incoming, List.tail_cons,
            List.length_append, List.length_cons, List.length_nil, Option.map_some, Option.getD_some]
          omega
        · simp only [State.report, State.rank, Stream.rank, Phase.rank, h, h_out, h_incoming,
            List.tail_cons, List.length_append, List.length_cons, List.length_nil, Option.map_some,
            Option.getD_some]
          omega
      · simp only [State.rank, Phase.rank, h, h_incoming, List.tail_cons, List.length_cons]
        omega

theorem rank_onStream (h_out : s.out = some stream) (h : Emission options digest s stream s') :
    s'.rank < s.rank := by
  cases h with
  | opens h =>
    simp only [State.rank, Stream.rank, h_out, h, Option.map_some, Option.getD_some, Bool.toNat_true,
      Bool.toNat_false]
    omega
  | openFails h =>
    have h_health : (if stream.health = .alive then Health.failing else stream.health).rank ≤
        stream.health.rank := by
      split
      · rename_i h_alive
        rw [h_alive]
        decide
      · exact Nat.le_refl _
    simp only [State.rank, Stream.rank, h_out, h, Option.map_some, Option.getD_some, Bool.toNat_true,
      Bool.toNat_false, List.length_nil]
    omega
  | flushes chunk rest needDrain h_buffer =>
    simp only [State.rank, Stream.rank, h_out, h_buffer, Option.map_some, Option.getD_some,
      List.length_cons]
    omega
  | drains chunk size h h_buffer =>
    simp only [State.report, State.rank, Stream.rank, h_out, h, h_buffer, Phase.rank,
      Option.map_some, Option.getD_some, List.length_cons, List.length_nil]
    omega
  | writeFails h_open h_alive =>
    simp only [State.rank, Stream.rank, h_out, h_alive, Health.rank, Option.map_some,
      Option.getD_some, List.length_nil]
    omega
  | wakesWithError h h_phase =>
    have h_rank := rank_fail { s with out := some { stream with health := .failed } } .disk
    have h_above : 4 < s.phase.rank := by
      obtain h_phase | ⟨size, h_phase⟩ := h_phase
      · rw [h_phase]
        decide
      · rw [h_phase, Phase.rank]
        decide
    simp only [State.rank, Stream.rank, h_out, h, Health.rank, Option.map_some, Option.getD_some]
      at h_rank ⊢
    omega
  | error h =>
    simp only [State.rank, Stream.rank, h_out, h, Health.rank, Option.map_some, Option.getD_some]
    omega
  | finishes h_phase h_open h_alive h_buffer =>
    rw [State.onFinish]
    split
    · simp only [State.rank, Stream.rank, Phase.rank, h_out, h_phase, h_alive, Health.rank,
        Option.map_some, Option.getD_some]
      omega
    · have h_rank := rank_fail { s with out := some { stream with health := .destroyed } } .integrity
      simp only [State.rank, Stream.rank, Phase.rank, h_out, h_phase, h_alive, Health.rank,
        Option.map_some, Option.getD_some] at h_rank ⊢
      omega
  | finishesUnasked h_phase h_alive =>
    simp only [State.rank, Stream.rank, h_out, h_alive, Health.rank, Option.map_some,
      Option.getD_some]
    omega
  | closesLast failure h =>
    simp only [State.rank, Stream.rank, Phase.rank, h_out, h, Health.rank, Option.map_some,
      Option.getD_some]
    omega
  | closes h_health =>
    have h_pos : 0 < stream.health.rank := by
      obtain h_health | h_health := h_health
      · rw [h_health]
        decide
      · rw [h_health]
        decide
    have h_closed : Health.closed.rank = 0 := rfl
    simp only [State.rank, Stream.rank, h_out, h_closed, Option.map_some, Option.getD_some]
    omega

/-- Every step takes the rank down. -/
theorem rank_step (h_step : s.step options digest e = some s') : s'.rank < s.rank := by
  cases (move_of_step h_step).2 with
  | aborts h =>
    simp only [State.rank, h, Bool.not_true, Bool.not_false, Bool.toNat_true, Bool.toNat_false]
    omega
  | timesOut h =>
    simp only [State.rank, h, Bool.not_true, Bool.not_false, Bool.toNat_true, Bool.toNat_false]
    omega
  | fails failure h =>
    have h_rank := rank_fail s failure
    have h_above : 4 < s.phase.rank := by
      obtain h | h | h | h := h
      all_goals
        rw [h]
        decide
    omega
  | prepares h =>
    simp only [State.rank, Phase.rank, h]
    omega
  | starts h =>
    simp only [State.rank, Stream.rank, Stream.fresh, Health.rank, Phase.rank, h, Option.map_some,
      Option.getD_some, Bool.toNat_true, List.length_nil]
    omega
  | reads stream chunk rest full h_e h h_out h_incoming => exact rank_onChunk h h_out h_incoming full
  | readsEnd stream h h_out =>
    rw [State.onEnd]
    split
    · have h_rank := rank_fail s s.abortFailure
      simp only [h, Phase.rank] at h_rank
      omega
    · split
      · simp only [State.rank, Stream.rank, Phase.rank, h, h_out, Option.map_some, Option.getD_some]
        omega
      · have h_rank := rank_fail s .disk
        simp only [h, Phase.rank] at h_rank
        omega
  | renames h =>
    simp only [State.rank, Phase.rank, h]
    omega
  | removes failure h =>
    simp only [State.rank, Phase.rank, h]
    omega
  | stream stream s' h_out h => exact rank_onStream h_out (emission_of_onStream h)

end Rank

/-! ## All or nothing -/

/-- The runs of one call. -/
def downloads (options : Options) (digest : Digest) (start : State) : Machine State Event where
  init s := s = start
  step s e := s.step options digest e

/-- Everything but the signal and the timers: what the function can wait for. -/
def Event.answers : Event → Bool
  | .abort | .timeout => false
  | _ => true

/-- What the promise stands for in a state: settled as it should be, or still to be settled. -/
structure AllOrNothing (options : Options) (digest : Digest) (original : Option Bytes) (s : State) :
    Prop where
  resolved : s.phase = .resolved →
    s.dest = some s.body ∧ ∀ h ∈ options.hashers, digest h.1 s.body = h.2.map Char.toLower
  rejected : ∀ failure, s.phase = .rejected failure →
    s.dest = original ∧ s.part = none ∧ s.balance = 0
  /-- What is waited for is still to come. -/
  goesOn : s.unsettled = true → ∃ e s', e.answers = true ∧ s.step options digest e = some s'
  /-- And what comes, comes to an end. -/
  ends : ∀ (es : List Event) (s' : State),
    (downloads options digest s).run s es = some s' → es.length ≤ s.rank

/-- A call of `download`: a body to come, anything at `dest` and its part file. -/
structure IsStart (s : State) : Prop where
  phase : s.phase = .fetching
  out : s.out = none
  received : s.received = 0
  hashed : s.hashed = []
  reported : s.reported = 0
  body : s.body = []
  balance : s.balance = 0

/-- No chunk is written to a stream that has emitted its error. -/
def inTime (options : Options) (s : State) (e : Event) : Bool :=
  match e, s.out, s.incoming with
  | .reads _, some stream, chunk :: _ =>
      stream.health == .alive || stream.health == .failing || s.aborted ||
        options.tooLarge (s.received + chunk.length)
  | _, _, _ => true

/-! ## The invariant -/

/-- What was hashed is what the part file and the buffer hold. -/
def Stored (s : State) (stream : Stream) : Prop :=
  stream.health = .alive →
    (stream.opening = true → stream.buffer.flatten = s.hashed) ∧
    (stream.opening = false → ∃ p, s.part = some p ∧ p ++ stream.buffer.flatten = s.hashed)

/-- The stream while the body is read, while a chunk of it or its end is waited for, while
    the file is moved, and in the catch block. -/
def Stream.Reads (stream : Stream) : Prop := stream.ended = false ∧ stream.health ≠ .destroyed

def Stream.Drains (stream : Stream) : Prop :=
  stream.health = .alive ∧ stream.ended = false ∧ stream.needDrain = true ∧ stream.buffer ≠ [] ∨
    stream.health = .failing

def Stream.Ends (stream : Stream) : Prop :=
  stream.health = .alive ∧ stream.ended = true ∨ stream.health = .failing

def Stream.Done (stream : Stream) : Prop :=
  stream.opening = false ∧ (stream.health = .destroyed ∨ stream.health = .closed)

def Stream.Closes (stream : Stream) : Prop :=
  stream.health = .failing ∨ stream.health = .failed ∨ stream.health = .destroyed

/-- What holds while the function waits for something. -/
def Fits (options : Options) (digest : Digest) (original : Option Bytes) (s : State) : Prop :=
  match s.phase with
  | .fetching | .preparing => s.out = none ∧ s.hashed = [] ∧ s.body = []
  | .reading =>
      s.body = s.hashed ∧ ∃ stream, s.out = some stream ∧ Stored s stream ∧ stream.Reads
  | .draining _ =>
      s.body = s.hashed ∧ ∃ stream, s.out = some stream ∧ Stored s stream ∧ stream.Drains
  | .ending =>
      s.body = s.hashed ∧ ∃ stream, s.out = some stream ∧ Stored s stream ∧ stream.Ends
  | .moving =>
      s.part = some s.body ∧ options.matches digest s.body = true ∧
        ∃ stream, s.out = some stream ∧ stream.Done
  | .closing _ => ∃ stream, s.out = some stream ∧ stream.Closes
  | .removing _ => True
  | .resolved => s.dest = some s.body ∧ options.matches digest s.body = true
  | .rejected _ => s.dest = original ∧ s.part = none ∧ s.balance = 0

structure Inv (options : Options) (digest : Digest) (original : Option Bytes) (s : State) : Prop where
  dest : s.unsettled = true → s.dest = original
  balance : s.unsettled = true → s.balance = s.reported
  opening : ∀ stream, s.out = some stream → stream.opening = true →
    stream.health = .alive ∨ stream.health = .destroyed
  fits : Fits options digest original s

section Invariant

variable {options : Options} {digest : Digest} {original : Option Bytes} {s s' : State}
  {stream : Stream} {e : Event}

theorem inv_start (h : IsStart s) : Inv options digest s.dest s := by
  refine ⟨fun _ => rfl, fun _ => ?_, fun stream h_stream => ?_, ?_⟩
  · rw [h.balance, h.reported]
    rfl
  · rw [h.out] at h_stream
    cases h_stream
  · rw [Fits, h.phase]
    exact ⟨h.out, h.hashed, h.body⟩

/-- The catch block begins in order wherever it begins. -/
theorem inv_fail (h_dest : s.dest = original) (h_balance : s.balance = s.reported)
    (h_opening : ∀ stream, s.out = some stream → stream.opening = true →
      stream.health = .alive ∨ stream.health = .destroyed) (failure : Failure) :
    Inv options digest original (s.fail failure) := by
  rw [State.fail]
  split
  · exact ⟨fun _ => h_dest, fun _ => h_balance, h_opening, trivial⟩
  · rename_i stream h_out
    split
    · exact ⟨fun _ => h_dest, fun _ => h_balance, h_opening, trivial⟩
    · rename_i h_closed
      have h_destroy : (stream.opening = true → stream.destroy.health = .destroyed) ∧
          (stream.destroy.health = .failing ∨ stream.destroy.health = .failed ∨
            stream.destroy.health = .destroyed) ∧ stream.destroy.opening = stream.opening := by
        rw [Stream.destroy]
        split
        · exact ⟨fun _ => rfl, .inr (.inr rfl), rfl⟩
        · rename_i h_alive
          refine ⟨fun h_open => (h_opening stream h_out h_open).resolve_left h_alive, ?_, rfl⟩
          cases h_health : stream.health with
          | alive => exact absurd h_health h_alive
          | failing => exact .inl rfl
          | failed => exact .inr (.inl rfl)
          | destroyed => exact .inr (.inr rfl)
          | closed => exact absurd h_health h_closed
      refine ⟨fun _ => h_dest, fun _ => h_balance, fun other h_other h_open => ?_,
        stream.destroy, rfl, h_destroy.2.1⟩
      obtain rfl := Option.some.inj h_other
      exact .inr (h_destroy.1 (h_destroy.2.2 ▸ h_open))

theorem inv_onChunk {chunk : Bytes} {rest : List Bytes} {full : Bool}
    (hs : Inv options digest original s) (h : s.phase = .reading) (h_out : s.out = some stream)
    (h_incoming : s.incoming = chunk :: rest)
    (h_time : inTime options s (.reads full) = true) :
    Inv options digest original (s.onChunk options stream chunk full) := by
  have h_unsettled : s.unsettled = true := by rw [State.unsettled, h]
  have h_dest := hs.dest h_unsettled
  have h_balance := hs.balance h_unsettled
  have h_fits := hs.fits
  rw [Fits, h] at h_fits
  obtain ⟨h_body, other, h_other, h_stored, h_ended, -⟩ := h_fits
  obtain rfl := Option.some.inj (h_out.symm.trans h_other)
  simp only [inTime, h_out, h_incoming, Bool.or_eq_true, beq_iff_eq] at h_time
  rw [State.onChunk]
  dsimp only
  split
  · refine inv_fail ?_ ?_ ?_ _
    · exact h_dest
    · exact h_balance
    · exact hs.opening
  · rename_i h_aborted
    split
    · refine inv_fail ?_ ?_ ?_ _
      · exact h_dest
      · exact h_balance
      · exact hs.opening
    · rename_i h_large
      have h_health : stream.health = .alive ∨ stream.health = .failing := by
        obtain ((h_health | h_health) | h_bad) | h_bad := h_time
        · exact .inl h_health
        · exact .inr h_health
        · exact absurd h_bad h_aborted
        · exact absurd h_bad h_large
      have h_body' : s.body ++ chunk = s.hashed ++ chunk := by rw [h_body]
      split
      · rename_i h_alive
        have h_opening : ∀ next, (some { stream with
              buffer := stream.buffer ++ [chunk], needDrain := full } : Option Stream) = some next →
            next.opening = true → next.health = .alive ∨ next.health = .destroyed := by
          intro next h_next _
          obtain rfl := Option.some.inj h_next
          exact .inl h_alive
        have h_flat : (stream.buffer ++ [chunk]).flatten = stream.buffer.flatten ++ chunk := by
          rw [List.flatten_append, List.flatten_singleton]
        have h_next : (stream.opening = true →
              (stream.buffer ++ [chunk]).flatten = s.hashed ++ chunk) ∧
            (stream.opening = false → ∃ p, s.part = some p ∧
              p ++ (stream.buffer ++ [chunk]).flatten = s.hashed ++ chunk) := by
          rw [h_flat]
          refine ⟨fun h_open => by rw [(h_stored h_alive).1 h_open], fun h_open => ?_⟩
          obtain ⟨p, h_part, h_hashed⟩ := (h_stored h_alive).2 h_open
          exact ⟨p, h_part, by rw [← List.append_assoc, h_hashed]⟩
        split
        · rename_i h_full
          refine ⟨fun _ => h_dest, fun _ => h_balance, h_opening, h_body', _, rfl,
            fun _ => h_next, .inl ⟨h_alive, h_ended, h_full, ?_⟩⟩
          exact List.append_ne_nil_of_right_ne_nil _ (List.cons_ne_nil chunk [])
        · refine ⟨fun _ => h_dest, fun _ => ?_, h_opening, h_body', _, rfl, fun _ => h_next, h_ended,
            ?_⟩
          · show s.balance + (chunk.length : Int) = ((s.reported + chunk.length : Nat) : Int)
            rw [h_balance, Int.natCast_add]
          · show stream.health ≠ .destroyed
            rw [h_alive]
            decide
      · rename_i h_dead
        refine ⟨fun _ => h_dest, fun _ => h_balance, hs.opening, h_body', stream, h_out,
          fun h_alive => absurd h_alive h_dead, .inr (h_health.resolve_left h_dead)⟩

/-- The stream, and the part file with it, change while the function waits. -/
theorem fits_update {next : Stream} {part : Option Bytes} (h_fits : Fits options digest original s)
    (h_unsettled : s.unsettled = true) (h_out : s.out = some stream)
    (h_stored : Stored s stream → Stored { s with part := part, out := some next } next)
    (h_reads : stream.Reads → next.Reads)
    (h_drains : ∀ size, s.phase = .draining size → stream.Drains → next.Drains)
    (h_ends : s.phase = .ending → stream.Ends → next.Ends)
    (h_done : stream.Done → next.Done ∧ part = s.part)
    (h_closes : ∀ failure, s.phase = .closing failure → stream.Closes → next.Closes) :
    Fits options digest original { s with part := part, out := some next } := by
  -- the stream of each phase is the one that changes
  have h_same : ∀ {P : Stream → Prop}, (∃ other, s.out = some other ∧ P other) → P stream := by
    rintro P ⟨other, h_other, h_P⟩
    rw [Option.some.inj (h_out.symm.trans h_other)]
    exact h_P
  rw [Fits] at h_fits ⊢
  cases h_phase : s.phase with
  | fetching =>
    rw [h_phase] at h_fits
    rw [h_fits.1] at h_out
    cases h_out
  | preparing =>
    rw [h_phase] at h_fits
    rw [h_fits.1] at h_out
    cases h_out
  | reading =>
    rw [h_phase] at h_fits
    obtain ⟨h_held, h_read⟩ := h_same h_fits.2
    exact ⟨h_fits.1, next, rfl, h_stored h_held, h_reads h_read⟩
  | draining size =>
    rw [h_phase] at h_fits
    obtain ⟨h_held, h_drain⟩ := h_same h_fits.2
    exact ⟨h_fits.1, next, rfl, h_stored h_held, h_drains size h_phase h_drain⟩
  | ending =>
    rw [h_phase] at h_fits
    obtain ⟨h_held, h_end⟩ := h_same h_fits.2
    exact ⟨h_fits.1, next, rfl, h_stored h_held, h_ends h_phase h_end⟩
  | moving =>
    rw [h_phase] at h_fits
    obtain ⟨h_next, h_part⟩ := h_done (h_same h_fits.2.2)
    exact ⟨h_part.trans h_fits.1, h_fits.2.1, next, rfl, h_next⟩
  | closing failure =>
    rw [h_phase] at h_fits
    exact ⟨next, rfl, h_closes failure h_phase (h_same h_fits)⟩
  | removing failure => trivial
  | resolved =>
    rw [State.unsettled, h_phase] at h_unsettled
    cases h_unsettled
  | rejected failure =>
    rw [State.unsettled, h_phase] at h_unsettled
    cases h_unsettled

/-- The stream breaks: whoever waits for it still waits for its error. -/
theorem fits_breaks {next : Stream} (h_fits : Fits options digest original s)
    (h_unsettled : s.unsettled = true) (h_out : s.out = some stream)
    (h_alive : stream.health = .alive) (h_next : next.health = .failing)
    (h_ended : next.ended = stream.ended) :
    Fits options digest original { s with out := some next } := by
  refine @fits_update _ _ _ s stream next s.part h_fits h_unsettled h_out ?_ ?_ ?_ ?_ ?_ ?_
  · intro _ h
    rw [h_next] at h
    cases h
  · intro h
    rw [Stream.Reads, h_ended, h_next]
    exact ⟨h.1, by decide⟩
  · exact fun _ _ _ => .inr h_next
  · exact fun _ _ => .inr h_next
  · rintro ⟨-, h | h⟩
    · rw [h_alive] at h
      cases h
    · rw [h_alive] at h
      cases h
  · rintro failure - (h | h | h)
    all_goals
      rw [h_alive] at h
      cases h

theorem inv_onStream (hs : Inv options digest original s) (h_unsettled : s.unsettled = true)
    (h_out : s.out = some stream) (h : Emission options digest s stream s') :
    Inv options digest original s' := by
  have h_dest := hs.dest h_unsettled
  have h_balance := hs.balance h_unsettled
  have h_opening := hs.opening stream h_out
  have h_fits := hs.fits
  have h_inv : ∀ {next : Stream} {part : Option Bytes},
      (next.opening = true → next.health = .alive ∨ next.health = .destroyed) →
      Fits options digest original { s with part := part, out := some next } →
      Inv options digest original { s with part := part, out := some next } := by
    intro next part h_next h_fits'
    refine ⟨fun _ => h_dest, fun _ => h_balance, fun other h_other => ?_, h_fits'⟩
    rw [← Option.some.inj h_other]
    exact h_next
  cases h with
  | opens h =>
    refine h_inv (fun h_open => by cases h_open) (fits_update h_fits h_unsettled h_out ?_ id
      (fun _ _ => id) (fun _ => id) (fun h_done => ?_) fun _ _ => id)
    · intro h_stored h_alive
      refine ⟨fun h_open => (by cases h_open), fun _ => ⟨[], rfl, ?_⟩⟩
      exact (h_stored h_alive).1 h
    · rw [h_done.1] at h
      cases h
  | openFails h =>
    obtain h_alive | h_destroyed := h_opening h
    · rw [if_pos h_alive]
      exact h_inv (fun h_open => by cases h_open)
        (fits_breaks h_fits h_unsettled h_out h_alive rfl rfl)
    · rw [if_neg (by rw [h_destroyed]; decide)]
      refine h_inv (fun h_open => by cases h_open) (@fits_update _ _ _ s stream _ s.part h_fits
        h_unsettled h_out ?_ ?_ ?_ ?_ ?_ ?_)
      · intro _ h_alive
        exact absurd (h_destroyed.symm.trans h_alive) (by decide)
      · exact fun h_reads => absurd h_destroyed h_reads.2
      · rintro size - (⟨h_alive, -⟩ | h_failing)
        · exact absurd (h_destroyed.symm.trans h_alive) (by decide)
        · exact absurd (h_destroyed.symm.trans h_failing) (by decide)
      · rintro - (⟨h_alive, -⟩ | h_failing)
        · exact absurd (h_destroyed.symm.trans h_alive) (by decide)
        · exact absurd (h_destroyed.symm.trans h_failing) (by decide)
      · intro h_done
        rw [h_done.1] at h
        cases h
      · exact fun _ _ h_closes => h_closes
  | flushes chunk rest needDrain h_buffer h_open h_alive h_wait =>
    refine h_inv (fun _ => .inl h_alive) (fits_update h_fits h_unsettled h_out ?_ id ?_
      (fun _ => id) ?_ fun _ _ => id)
    · intro h_stored _
      refine ⟨fun h_opens => ?_, fun _ => ?_⟩
      · exact absurd (h_open.symm.trans h_opens) (by decide)
      · obtain ⟨p, h_part, h_hashed⟩ := (h_stored h_alive).2 h_open
        refine ⟨p ++ chunk, by rw [h_part]; rfl, ?_⟩
        rw [h_buffer, List.flatten_cons, ← List.append_assoc] at h_hashed
        exact h_hashed
    · rintro size h_phase (⟨-, h_ended, h_need, -⟩ | h_failing)
      · obtain ⟨h_same, h_rest⟩ := h_wait size h_phase
        exact .inl ⟨h_alive, h_ended, h_same.trans h_need, h_rest h_need⟩
      · exact absurd (h_alive.symm.trans h_failing) (by decide)
    · rintro ⟨-, h_health | h_health⟩
      · exact absurd (h_alive.symm.trans h_health) (by decide)
      · exact absurd (h_alive.symm.trans h_health) (by decide)
  | drains chunk size h h_buffer h_open h_alive =>
    rw [Fits, h] at h_fits
    obtain ⟨h_body, other, h_other, h_stored, h_drains⟩ := h_fits
    obtain rfl := Option.some.inj (h_out.symm.trans h_other)
    obtain ⟨p, h_part, h_hashed⟩ := (h_stored h_alive).2 h_open
    rw [h_buffer, List.flatten_singleton] at h_hashed
    have h_ended : stream.ended = false := by
      obtain ⟨-, h_ended, -⟩ | h_failing := h_drains
      · exact h_ended
      · exact absurd (h_alive.symm.trans h_failing) (by decide)
    refine ⟨fun _ => h_dest, fun _ => ?_, fun next h_next h_opens => ?_, h_body, _, rfl,
      fun _ => ⟨fun h_opens => ?_, fun _ => ⟨p ++ chunk, ?_, ?_⟩⟩, h_ended, ?_⟩
    · show s.balance + (size : Int) = ((s.reported + size : Nat) : Int)
      rw [h_balance, Int.natCast_add]
    · rw [← Option.some.inj h_next]
      exact .inl h_alive
    · exact absurd (h_open.symm.trans h_opens) (by decide)
    · show s.part.map (· ++ chunk) = _
      rw [h_part]
      rfl
    · rw [List.flatten_nil, List.append_nil]
      exact h_hashed
    · show stream.health ≠ .destroyed
      rw [h_alive]
      decide
  | writeFails h_open h_alive =>
    refine h_inv (fun h_opens => ?_) (fits_breaks h_fits h_unsettled h_out h_alive rfl rfl)
    exact absurd (h_open.symm.trans h_opens) (by decide)
  | wakesWithError h h_phase =>
    refine inv_fail ?_ ?_ ?_ _
    · exact h_dest
    · exact h_balance
    · intro other h_other h_open
      rw [← Option.some.inj h_other] at h_open
      rw [h] at h_opening
      exact absurd (h_opening h_open) (by decide)
  | error h h_ending h_draining =>
    refine h_inv (fun h_open => ?_) (@fits_update _ _ _ s stream _ s.part h_fits h_unsettled h_out
      (fun _ h_alive => by cases h_alive) (fun h_reads => ⟨h_reads.1, fun h_eq => by cases h_eq⟩)
      (fun size h_phase => absurd h_phase (h_draining size)) (fun h_phase => absurd h_phase h_ending)
      ?_ fun _ _ _ => .inr (.inl rfl))
    · rw [h] at h_opening
      exact absurd (h_opening h_open) (by decide)
    · rintro ⟨-, h_health | h_health⟩
      · exact absurd (h.symm.trans h_health) (by decide)
      · exact absurd (h.symm.trans h_health) (by decide)
  | finishes h_phase h_open h_alive h_buffer =>
    rw [Fits, h_phase] at h_fits
    obtain ⟨h_body, other, h_other, h_stored, -⟩ := h_fits
    obtain rfl := Option.some.inj (h_out.symm.trans h_other)
    obtain ⟨p, h_part, h_hashed⟩ := (h_stored h_alive).2 h_open
    rw [h_buffer, List.flatten_nil, List.append_nil, ← h_body] at h_hashed
    have h_opening' : ∀ next, (some { stream with health := .destroyed } : Option Stream) = some next →
        next.opening = true → next.health = .alive ∨ next.health = .destroyed := by
      intro next h_next _
      rw [← Option.some.inj h_next]
      exact .inr rfl
    rw [State.onFinish]
    split
    · rename_i h_matches
      refine ⟨fun _ => h_dest, fun _ => h_balance, h_opening', ?_, ?_, _, rfl, h_open, .inl rfl⟩
      · show s.part = some s.body
        rw [h_part, h_hashed]
      · show options.matches digest s.body = true
        rw [h_body]
        exact h_matches
    · refine inv_fail ?_ ?_ ?_ _
      · exact h_dest
      · exact h_balance
      · exact h_opening'
  | finishesUnasked h_phase h_alive h_open h_ended =>
    refine h_inv (fun _ => .inr rfl) (@fits_update _ _ _ s stream _ s.part h_fits h_unsettled h_out
      (fun _ h_eq => by cases h_eq) ?_ ?_ (fun h_end => absurd h_end h_phase) ?_
      fun _ _ _ => .inr (.inr rfl))
    · exact fun h_reads => absurd (h_ended.symm.trans h_reads.1) (by decide)
    · rintro size - (⟨-, h_not, -⟩ | h_failing)
      · exact absurd (h_ended.symm.trans h_not) (by decide)
      · exact absurd (h_alive.symm.trans h_failing) (by decide)
    · rintro ⟨-, h_health | h_health⟩
      · exact absurd (h_alive.symm.trans h_health) (by decide)
      · exact absurd (h_alive.symm.trans h_health) (by decide)
  | closesLast failure h h_open =>
    refine ⟨fun _ => h_dest, fun _ => h_balance, fun next h_next h_opens => ?_, trivial⟩
    rw [← Option.some.inj h_next] at h_opens
    exact absurd (h_open.symm.trans h_opens) (by decide)
  | closes h_health h_open h =>
    refine h_inv (fun h_opens => absurd (h_open.symm.trans h_opens) (by decide))
      (@fits_update _ _ _ s stream _ s.part h_fits h_unsettled h_out (fun _ h_eq => by cases h_eq)
        (fun h_reads => ⟨h_reads.1, fun h_eq => by cases h_eq⟩) ?_ ?_
        (fun h_done => ⟨⟨h_done.1, .inr rfl⟩, rfl⟩)
        fun failure h_closing => absurd h_closing (h failure))
    · rintro size - (⟨h_alive, -⟩ | h_failing)
      · rw [h_alive] at h_health
        exact absurd h_health (by decide)
      · rw [h_failing] at h_health
        exact absurd h_health (by decide)
    · rintro - (⟨h_alive, -⟩ | h_failing)
      · rw [h_alive] at h_health
        exact absurd h_health (by decide)
      · rw [h_failing] at h_health
        exact absurd h_health (by decide)

theorem inv_step (hs : Inv options digest original s) (h_time : inTime options s e = true)
    (h_step : s.step options digest e = some s') : Inv options digest original s' := by
  obtain ⟨h_unsettled, h_move⟩ := move_of_step h_step
  have h_dest := hs.dest h_unsettled
  have h_balance := hs.balance h_unsettled
  have h_fits := hs.fits
  rw [Fits] at h_fits
  cases h_move with
  | aborts h => exact ⟨hs.dest, hs.balance, hs.opening, hs.fits⟩
  | timesOut h => exact ⟨hs.dest, hs.balance, hs.opening, hs.fits⟩
  | fails failure h => exact inv_fail h_dest h_balance hs.opening failure
  | prepares h =>
    rw [h] at h_fits
    exact ⟨fun _ => h_dest, fun _ => h_balance, hs.opening, h_fits⟩
  | starts h =>
    rw [h] at h_fits
    obtain ⟨-, h_hashed, h_body⟩ := h_fits
    refine ⟨fun _ => h_dest, fun _ => h_balance, fun stream h_stream _ => ?_,
      h_body.trans h_hashed.symm, .fresh, rfl, fun _ => ⟨fun _ => h_hashed.symm, fun h_open => ?_⟩,
      rfl, fun h_health => ?_⟩
    · rw [← Option.some.inj h_stream]
      exact .inl rfl
    · cases h_open
    · cases h_health
  | reads stream chunk rest full h_e h h_out h_incoming =>
    exact inv_onChunk hs h h_out h_incoming (h_e ▸ h_time)
  | readsEnd stream h h_out =>
    rw [h] at h_fits
    obtain ⟨h_body, other, h_other, h_stored, h_reads⟩ := h_fits
    obtain rfl := Option.some.inj (h_out.symm.trans h_other)
    rw [State.onEnd]
    split
    · exact inv_fail h_dest h_balance hs.opening _
    · split
      · rename_i h_alive
        refine ⟨fun _ => h_dest, fun _ => h_balance, fun next h_next _ => ?_, h_body, _, rfl,
          fun _ => h_stored h_alive, .inl ⟨h_alive, rfl⟩⟩
        rw [← Option.some.inj h_next]
        exact .inl h_alive
      · exact inv_fail h_dest h_balance hs.opening _
  | renames h =>
    rw [h] at h_fits
    exact ⟨fun h_not => (by cases h_not), fun h_not => (by cases h_not), hs.opening, h_fits.1,
      h_fits.2.1⟩
  | removes failure h =>
    refine ⟨fun h_not => (by cases h_not), fun h_not => (by cases h_not), hs.opening, h_dest, rfl,
      ?_⟩
    show (if s.reported = 0 then s.balance else s.balance - (s.reported : Int)) = 0
    rw [h_balance]
    split
    · rename_i h_none
      rw [h_none]
      rfl
    · exact Int.sub_self _
  | stream stream s' h_out h =>
    exact inv_onStream hs h_unsettled h_out (emission_of_onStream h)

/-- A stream that is neither closed nor idle has something to emit. -/
theorem stream_goesOn (h_opening : stream.opening = true →
      stream.health = .alive ∨ stream.health = .destroyed)
    (h : stream.health ≠ .closed)
    (h_busy : stream.health = .alive → stream.buffer ≠ [] ∨ stream.ended = true) :
    ∃ e, e.answers = true ∧ (s.onStream options digest stream e).isSome := by
  by_cases h_open : stream.opening = true
  · exact ⟨.opens, rfl, by rw [State.onStream, if_pos h_open]; rfl⟩
  · rw [Bool.not_eq_true] at h_open
    cases h_health : stream.health with
    | alive =>
      obtain h_buffer | h_ended := h_busy h_health
      · obtain ⟨chunk, rest, h_chunk⟩ := List.exists_cons_of_ne_nil h_buffer
        refine ⟨.flushes, rfl, ?_⟩
        have h_free : ¬ (stream.opening = true ∨ stream.health ≠ .alive) := by
          rw [h_open, h_health]
          decide
        rw [State.onStream, h_chunk]
        dsimp only
        rw [if_neg h_free]
        split
        · rfl
        · rfl
      · by_cases h_buffer : stream.buffer = []
        · refine ⟨.finishes, rfl, ?_⟩
          rw [State.onStream, if_pos ⟨h_open, h_health, h_ended, h_buffer⟩]
          dsimp only
          split
          · rfl
          · rfl
        · refine ⟨.writeFails, rfl, ?_⟩
          rw [State.onStream, if_pos ⟨h_open, h_health, h_buffer⟩]
          rfl
    | failing =>
      refine ⟨.emitsError, rfl, ?_⟩
      rw [State.onStream, if_pos h_health]
      dsimp only
      split
      · rfl
      · rfl
      · rfl
    | failed =>
      refine ⟨.closes, rfl, ?_⟩
      rw [State.onStream, if_pos ⟨h_open, .inl h_health⟩]
      dsimp only
      split
      · rfl
      · rfl
    | destroyed =>
      refine ⟨.closes, rfl, ?_⟩
      rw [State.onStream, if_pos ⟨h_open, .inr h_health⟩]
      dsimp only
      split
      · rfl
      · rfl
    | closed => exact absurd h_health h

theorem step_of_onStream (h_unsettled : s.unsettled = true) (h_out : s.out = some stream)
    (h : (s.onStream options digest stream e).isSome) : (s.step options digest e).isSome := by
  rw [State.step.eq_def, h_unsettled, if_neg (by decide)]
  cases e
  case opens | openFails | flushes | writeFails | emitsError | finishes | closes =>
    dsimp only
    rw [h_out]
    exact h
  all_goals cases h

/-- What the function waits for is still to come. -/
theorem goesOn (hs : Inv options digest original s) (h_unsettled : s.unsettled = true) :
    ∃ e, e.answers = true ∧ (s.step options digest e).isSome := by
  have h_fits := hs.fits
  have h_settled : ¬ s.unsettled = false := by rw [h_unsettled]; decide
  have h_stream : ∀ {stream : Stream}, s.out = some stream → stream.health ≠ .closed →
      (stream.health = .alive → stream.buffer ≠ [] ∨ stream.ended = true) →
      ∃ e, e.answers = true ∧ (s.step options digest e).isSome := by
    intro stream h_out h_closed h_busy
    obtain ⟨e, h_e, h_some⟩ := stream_goesOn (hs.opening stream h_out) h_closed h_busy
    exact ⟨e, h_e, step_of_onStream h_unsettled h_out h_some⟩
  rw [Fits] at h_fits
  cases h_phase : s.phase with
  | fetching => exact ⟨.fetchFails, rfl, by rw [State.step, if_neg h_settled, if_pos h_phase]; rfl⟩
  | preparing => exact ⟨.mkdirFails, rfl, by rw [State.step, if_neg h_settled, if_pos h_phase]; rfl⟩
  | reading => exact ⟨.readFails, rfl, by rw [State.step, if_neg h_settled, if_pos h_phase]; rfl⟩
  | draining size =>
    rw [h_phase] at h_fits
    obtain ⟨-, stream, h_out, -, ⟨h_alive, -, -, h_buffer⟩ | h_failing⟩ := h_fits
    · exact h_stream h_out (by rw [h_alive]; decide) fun _ => .inl h_buffer
    · refine h_stream h_out (by rw [h_failing]; decide) fun h_alive => ?_
      exact absurd (h_failing.symm.trans h_alive) (by decide)
  | ending =>
    rw [h_phase] at h_fits
    obtain ⟨-, stream, h_out, -, ⟨h_alive, h_ended⟩ | h_failing⟩ := h_fits
    · exact h_stream h_out (by rw [h_alive]; decide) fun _ => .inr h_ended
    · refine h_stream h_out (by rw [h_failing]; decide) fun h_alive => ?_
      exact absurd (h_failing.symm.trans h_alive) (by decide)
  | moving => exact ⟨.renameFails, rfl, by rw [State.step, if_neg h_settled, if_pos h_phase]; rfl⟩
  | closing failure =>
    rw [h_phase] at h_fits
    obtain ⟨stream, h_out, h_health⟩ := h_fits
    have h_not : stream.health ≠ .closed ∧ stream.health ≠ .alive := by
      obtain h_health | h_health | h_health := h_health
      all_goals
        rw [h_health]
        decide
    exact h_stream h_out h_not.1 fun h_alive => absurd h_alive h_not.2
  | removing failure =>
    exact ⟨.removes, rfl, by rw [State.step, if_neg h_settled, h_phase]; rfl⟩
  | resolved =>
    rw [State.unsettled, h_phase] at h_unsettled
    cases h_unsettled
  | rejected failure =>
    rw [State.unsettled, h_phase] at h_unsettled
    cases h_unsettled

end Invariant

/-! ## The call -/

/-- In every run in which no chunk comes behind the stream's error, the download is all or
    nothing. -/
theorem allOrNothing (options : Options) (digest : Digest) {start s : State} (h_start : IsStart start)
    (h : (downloads options digest start).ReachableUnder (fun t e => inTime options t e = true) s) :
    AllOrNothing options digest start.dest s := by
  have h_inv : Inv options digest start.dest s := by
    refine h.invariant ?_ fun t e t' h_t h_time h_step => inv_step h_t h_time h_step
    rintro t rfl
    exact inv_start h_start
  have h_fits := h_inv.fits
  refine ⟨fun h_phase => ?_, fun failure h_phase => ?_, fun h_unsettled => ?_, fun es s' h_run => ?_⟩
  · rw [Fits, h_phase] at h_fits
    refine ⟨h_fits.1, fun h h_mem => ?_⟩
    exact beq_iff_eq.mp (List.all_eq_true.mp h_fits.2 h h_mem)
  · rw [Fits, h_phase] at h_fits
    exact h_fits
  · obtain ⟨e, h_answers, h_some⟩ := goesOn h_inv h_unsettled
    obtain ⟨s', h_s'⟩ := Option.isSome_iff_exists.mp h_some
    exact ⟨e, s', h_answers, h_s'⟩
  · have h_le := Machine.length_le_rank _ (fun t e t' h_step => rank_step h_step) es h_run
    omega

/-- A body of two chunks, over an older file. -/
def update : State where
  incoming := [[1], [2, 3]]
  phase := .fetching
  aborted := false
  timedOut := false
  out := none
  received := 0
  hashed := []
  reported := 0
  dest := some [0]
  part := none
  body := []
  balance := 0

theorem update_isStart : IsStart update := ⟨rfl, rfl, rfl, rfl, rfl, rfl, rfl⟩

def lengths : Digest := fun _ content => Nat.toDigits 16 content.length

/-- Downloaded with backpressure on the first chunk. -/
theorem allOrNothing_update :
    ∃ s, s.phase = .resolved ∧ s.dest = some [1, 2, 3] ∧
      AllOrNothing ⟨[(.sha1, ['3'])], none⟩ lengths update.dest s := by
  have h_run := Machine.reachableUnder_of_runUnder
    (M := downloads ⟨[(.sha1, ['3'])], none⟩ lengths update) (G := inTime ⟨[(.sha1, ['3'])], none⟩)
    [.responds true, .makesDir, .reads true, .opens, .flushes, .reads false, .readsEnd, .flushes,
      .finishes, .renames] (.init rfl) rfl
  exact ⟨_, by rfl, by rfl, allOrNothing _ _ update_isStart h_run⟩

/-- The part file cannot be opened and the error comes before the first chunk: once signal and
    timers have been tried nothing can happen any more. -/
theorem chunk_behind_error :
    IsStart update ∧ ∃ s, (downloads ⟨[], none⟩ lengths update).Reachable s ∧ s.unsettled = true ∧
      ∀ e, s.step ⟨[], none⟩ lengths e = none := by
  have h_run : (downloads ⟨[], none⟩ lengths update).Reachable (Option.get _ _) :=
    Machine.reachable_of_run _ [.responds true, .makesDir, .openFails, .emitsError, .closes,
      .reads false, .abort, .timeout] (.init rfl) (Option.some_get (x := _) rfl).symm
  refine ⟨update_isStart, _, h_run, rfl, fun e => ?_⟩
  cases e <;> rfl

end Kubek.Download
