/-
  Kubek.Assistant.CompletionStream

  Putting a streamed completion together (`CompletionAccumulator` of
  completion-accumulator.ts).

  A fragment of a tool call is matched by its index, by its id or by its position, whichever
  it carries. Two styles of streams are supported: indexed fragments of several calls in any
  order, and fragments without an index call by call. Both yield the calls as they were sent
  (`result_of_supported`).

  `calls` is an array with holes: an index beyond its end leaves unset positions before it.
  Texts are lists of UTF-16 code units, so a delta may end within a character.
-/

import Mathlib.Data.List.Basic
import Mathlib.Data.List.Forall2

namespace Kubek.Assistant.CompletionStream

/-- A text by its code units. -/
abbrev Text := List UInt16

/-! ## Chunks -/

/-- `function` of a fragment. -/
structure FunctionPart where
  name : Option Text := none
  arguments : Option Text := none
  deriving DecidableEq

structure ChunkToolCall where
  index : Option Nat := none
  id : Option Text := none
  function : Option FunctionPart := none
  deriving DecidableEq

structure Delta where
  content : Option Text := none
  toolCalls : Option (List ChunkToolCall) := none

structure ChunkChoice where
  delta : Option Delta := none
  finishReason : Option Text := none

structure Chunk where
  choices : Option (List ChunkChoice) := none

structure StreamedToolCall where
  id : Text
  name : Text
  arguments : Text
  deriving DecidableEq

structure ChatCompletion where
  content : Text
  toolCalls : List StreamedToolCall
  finishReason : Option Text

/-- A text that is there and not empty. -/
def given : Option Text → Option Text
  | some text => if text = [] then none else some text
  | none => none

namespace ChunkToolCall

/-- `part.function?.name`. -/
def name (part : ChunkToolCall) : Option Text := part.function.bind (·.name)

/-- `part.function?.arguments`. -/
def arguments (part : ChunkToolCall) : Option Text := part.function.bind (·.arguments)

/-- What the fragment adds to the arguments. -/
def piece (part : ChunkToolCall) : Text := part.arguments.getD []

end ChunkToolCall

namespace Chunk

/-- `choices?.[0]`. -/
def choice (chunk : Chunk) : Option ChunkChoice := chunk.choices.bind (·.head?)

/-- The text delta. -/
def text (chunk : Chunk) : Text :=
  ((chunk.choice.bind (·.delta)).bind (·.content)).getD []

/-- The fragments of tool calls. -/
def parts (chunk : Chunk) : List ChunkToolCall :=
  ((chunk.choice.bind (·.delta)).bind (·.toolCalls)).getD []

end Chunk

/-! ## The accumulator -/

/-- The array of calls; `none` is a hole. -/
abbrev Calls := List (Option StreamedToolCall)

/-- `calls[i] = call`; positions between the end and `i` become holes. -/
def setAt : Calls → Nat → StreamedToolCall → Calls
  | [], 0, call => [some call]
  | [], i + 1, call => none :: setAt [] i call
  | _ :: rest, 0, call => some call :: rest
  | slot :: rest, i + 1, call => slot :: setAt rest i call

/-- `calls.find((c) => c.id === id)`: the position, if any. Reading the id of a hole throws. -/
def findId (id : Text) : Calls → Option (Option Nat)
  | [] => some none
  | none :: _ => none
  | some call :: rest =>
      if call.id = id then some (some 0)
      else (findId id rest).map fun found => found.map (· + 1)

/-- The call at a position, where there is one. -/
def present (calls : Calls) (i : Nat) : Option Nat :=
  if (calls[i]?.join).isSome then some i else none

/-- The position of the call that a fragment belongs to; `none` where the lookup throws. -/
def locate (calls : Calls) (part : ChunkToolCall) : Option (Option Nat) :=
  match part.index with
  | some i => some (present calls i)
  | none =>
      match given part.id with
      | some id => findId id calls
      | none => some (present calls (calls.length - 1))

/-- What a fragment adds to its call. -/
def merge (call : StreamedToolCall) (part : ChunkToolCall) : StreamedToolCall where
  id := (given part.id).getD call.id
  name :=
    match given part.name with
    | some name => if name = call.name then call.name else call.name ++ name
    | none => call.name
  arguments := call.arguments ++ (given part.arguments).getD []

/-- A call that its first fragment starts. -/
def started (part : ChunkToolCall) : StreamedToolCall :=
  merge ⟨part.id.getD [], [], []⟩ part

/-- `pushToolCall`; `none` where it throws. -/
def pushToolCall (calls : Calls) (part : ChunkToolCall) : Option Calls :=
  (locate calls part).map fun found =>
    match found with
    | some i => calls.modify i fun slot => slot.map (merge · part)
    | none =>
        match part.index with
        | some i => setAt calls i (started part)
        | none => calls ++ [some (started part)]

def pushToolCalls : Calls → List ChunkToolCall → Option Calls
  | calls, [] => some calls
  | calls, part :: parts => (pushToolCall calls part).bind fun next => pushToolCalls next parts

structure CompletionAccumulator where
  content : Text := []
  finishReason : Option Text := none
  calls : Calls := []

namespace CompletionAccumulator

/-- `push`: the accumulator and the text that the chunk added. -/
def push (acc : CompletionAccumulator) (chunk : Chunk) : Option (CompletionAccumulator × Text) :=
  match chunk.choice with
  | none => some (acc, [])
  | some choice =>
      (pushToolCalls acc.calls chunk.parts).map fun calls =>
        ({ content := acc.content ++ chunk.text
           finishReason := (given choice.finishReason).or acc.finishReason
           calls := calls }, chunk.text)

/-- The chunks one after the other. -/
def pushAll (acc : CompletionAccumulator) : List Chunk → Option CompletionAccumulator
  | [] => some acc
  | chunk :: chunks => (acc.push chunk).bind fun next => next.1.pushAll chunks

/-- `result`. -/
def result (acc : CompletionAccumulator) : ChatCompletion where
  content := acc.content
  toolCalls := acc.calls.filterMap fun slot => slot.filter fun call => !call.name.isEmpty
  finishReason := acc.finishReason

end CompletionAccumulator

/-! ## Streams -/

/-- The fragments carry the call: the first one its id, each its name or none, and together
    its arguments. -/
structure Carries (call : StreamedToolCall) (parts : List ChunkToolCall) : Prop where
  first : ∃ part rest, parts = part :: rest ∧ part.id = some call.id
  ids : ∀ part ∈ parts, ∀ id, given part.id = some id → id = call.id
  names : ∀ part ∈ parts, ∀ name, given part.name = some name → name = call.name
  named : ∃ part ∈ parts, part.name = some call.name
  arguments : parts.flatMap ChunkToolCall.piece = call.arguments

/-- Indexed fragments of the calls in any order; the indices grow with the calls. -/
def Indexed (calls : List StreamedToolCall) (parts : List ChunkToolCall) : Prop :=
  ∃ numbered : List (Nat × StreamedToolCall),
    numbered.map Prod.snd = calls ∧ numbered.Pairwise (fun m n => m.1 < n.1) ∧
    (∀ part ∈ parts, ∃ n ∈ numbered, part.index = some n.1) ∧
    ∀ n ∈ numbered, Carries n.2 (parts.filter (·.index == some n.1))

/-- Fragments without an index, call by call. -/
def Unindexed (calls : List StreamedToolCall) (parts : List ChunkToolCall) : Prop :=
  (∀ part ∈ parts, part.index = none) ∧
    ∃ segments, parts = segments.flatten ∧ List.Forall₂ Carries calls segments

/-- The styles in which providers send tool calls. -/
def Supported (calls : List StreamedToolCall) (parts : List ChunkToolCall) : Prop :=
  Indexed calls parts ∨ Unindexed calls parts

/-! ## One call -/

theorem given_of_ne {text : Text} (h : text ≠ []) : given (some text) = some text := if_neg h

theorem getD_given (t : Option Text) : (given t).getD [] = t.getD [] := by
  cases t with
  | none => rfl
  | some text =>
    by_cases h : text = []
    · rw [h]
      rfl
    · rw [given_of_ne h]

/-- What is collected of a call after some of its fragments. -/
def progress (call : StreamedToolCall) (parts : List ChunkToolCall) : StreamedToolCall where
  id := call.id
  name := if parts.any fun part => (given part.name).isSome then call.name else []
  arguments := parts.flatMap ChunkToolCall.piece

/-- A fragment of the call, as far as its id and its name go. -/
def IsPart (call : StreamedToolCall) (part : ChunkToolCall) : Prop :=
  (∀ id, given part.id = some id → id = call.id) ∧
    ∀ name, given part.name = some name → name = call.name

theorem merge_progress {call : StreamedToolCall} {part : ChunkToolCall} (h : IsPart call part)
    (parts : List ChunkToolCall) :
    merge (progress call parts) part = progress call (parts ++ [part]) := by
  have h_id : (given part.id).getD call.id = call.id := by
    cases h_given : given part.id with
    | none => rfl
    | some id => rw [Option.getD_some, h.1 id h_given]
  have h_arguments : parts.flatMap ChunkToolCall.piece ++ (given part.arguments).getD [] =
      (parts ++ [part]).flatMap ChunkToolCall.piece := by
    rw [List.flatMap_append, List.flatMap_singleton, getD_given, ChunkToolCall.piece]
  simp only [merge, progress, h_id, h_arguments, List.any_append, List.any_cons, List.any_nil,
    Bool.or_false]
  cases h_name : given part.name with
  | none => simp
  | some name =>
    have h_eq : name = call.name := h.2 name h_name
    by_cases h_any : parts.any (fun part => (given part.name).isSome) = true
    · simp [h_any, h_eq]
    · simp [h_any, h_eq]

theorem started_eq {call : StreamedToolCall} {part : ChunkToolCall} (h : IsPart call part)
    (h_id : part.id = some call.id) : started part = progress call [part] := by
  have h_fresh : (⟨part.id.getD [], [], []⟩ : StreamedToolCall) = progress call [] := by
    rw [h_id]
    rfl
  rw [started, h_fresh, merge_progress h, List.nil_append]

theorem Carries.isPart {call : StreamedToolCall} {parts : List ChunkToolCall}
    (h : Carries call parts) {part : ChunkToolCall} (h_mem : part ∈ parts) : IsPart call part :=
  ⟨h.ids part h_mem, h.names part h_mem⟩

/-- All fragments together are the call. -/
theorem Carries.progress_eq {call : StreamedToolCall} {parts : List ChunkToolCall}
    (h : Carries call parts) (h_name : call.name ≠ []) : progress call parts = call := by
  obtain ⟨part, h_mem, h_part⟩ := h.named
  have h_any : parts.any (fun part => (given part.name).isSome) = true := by
    rw [List.any_eq_true]
    refine ⟨part, h_mem, ?_⟩
    rw [h_part, given_of_ne h_name]
    rfl
  rw [progress, if_pos h_any, h.arguments]

/-! ## Call by call -/

theorem findId_of_not_mem {id : Text} {calls : List StreamedToolCall}
    (h : id ∉ calls.map (·.id)) : findId id (calls.map some) = some none := by
  induction calls with
  | nil => rfl
  | cons call calls ih =>
    rw [List.map_cons, List.mem_cons, not_or] at h
    rw [List.map_cons, findId, if_neg (Ne.symm h.1), ih h.2]
    rfl

theorem findId_concat {calls : List StreamedToolCall} {call : StreamedToolCall}
    (h : call.id ∉ calls.map (·.id)) :
    findId call.id ((calls ++ [call]).map some) = some (some calls.length) := by
  induction calls with
  | nil => simp [findId]
  | cons first calls ih =>
    rw [List.map_cons, List.mem_cons, not_or] at h
    rw [List.cons_append, List.map_cons, findId, if_neg (Ne.symm h.1), ih h.2]
    rfl

theorem present_concat (calls : List StreamedToolCall) (call : StreamedToolCall) :
    present ((calls ++ [call]).map some) calls.length = some calls.length := by
  simp [present]

/-- A fragment without an index, behind the first one of its call, goes to the last call. -/
theorem locate_concat {done : List StreamedToolCall} {call : StreamedToolCall}
    {part : ChunkToolCall} (h_index : part.index = none)
    (h_id : ∀ id, given part.id = some id → id = call.id) (h_new : call.id ∉ done.map (·.id)) :
    locate ((done ++ [call]).map some) part = some (some done.length) := by
  rw [locate, h_index]
  cases h_given : given part.id with
  | none =>
    have h_last : ((done ++ [call]).map some).length - 1 = done.length := by simp
    simp only
    rw [h_last, present_concat]
  | some id =>
    simp only
    rw [h_id id h_given]
    exact findId_concat h_new

theorem modify_concat (done : Calls) (slot : Option StreamedToolCall)
    (f : Option StreamedToolCall → Option StreamedToolCall) :
    (done ++ [slot]).modify done.length f = done ++ [f slot] := by
  induction done with
  | nil => rfl
  | cons first done ih =>
    rw [List.cons_append, List.length_cons, List.modify_succ_cons, ih]
    rfl

attribute [local simp] pushToolCalls in
/-- The other fragments of a call, behind the first. -/
theorem pushToolCalls_rest {done : List StreamedToolCall} {call : StreamedToolCall}
    {parts : List ChunkToolCall} (h_index : ∀ part ∈ parts, part.index = none)
    (h_parts : ∀ part ∈ parts, IsPart call part) (h_new : call.id ∉ done.map (·.id))
    (before : List ChunkToolCall) :
    pushToolCalls ((done ++ [progress call before]).map some) parts =
      some ((done ++ [progress call (before ++ parts)]).map some) := by
  induction parts generalizing before with
  | nil => rw [List.append_nil]; rfl
  | cons part parts ih =>
    have h_part := h_parts part List.mem_cons_self
    have h_locate : locate ((done ++ [progress call before]).map some) part =
        some (some done.length) :=
      locate_concat (h_index part List.mem_cons_self) h_part.1 h_new
    have h_modify : ((done ++ [progress call before]).map some).modify done.length
        (fun slot => slot.map (merge · part)) =
        (done ++ [progress call (before ++ [part])]).map some := by
      have h_length : done.length = (done.map some).length := by rw [List.length_map]
      rw [List.map_append, List.map_append, List.map_singleton, List.map_singleton, h_length,
        modify_concat, ← merge_progress h_part]
      rfl
    rw [pushToolCalls, pushToolCall, h_locate, Option.map_some, Option.bind_some]
    simp only
    rw [h_modify, ih (fun p h => h_index p (List.mem_cons_of_mem _ h))
      (fun p h => h_parts p (List.mem_cons_of_mem _ h)), List.append_assoc]
    rfl

/-- All fragments of a call. -/
theorem pushToolCalls_call {done : List StreamedToolCall} {call : StreamedToolCall}
    {parts : List ChunkToolCall} (h_index : ∀ part ∈ parts, part.index = none)
    (h : Carries call parts) (h_id : call.id ≠ []) (h_name : call.name ≠ [])
    (h_new : call.id ∉ done.map (·.id)) :
    pushToolCalls (done.map some) parts = some ((done ++ [call]).map some) := by
  obtain ⟨part, rest, rfl, h_first⟩ := h.first
  have h_part := h.isPart List.mem_cons_self
  have h_locate : locate (done.map some) part = some none := by
    rw [locate, h_index part List.mem_cons_self]
    simp only [h_first, given_of_ne h_id]
    exact findId_of_not_mem h_new
  have h_start : pushToolCall (done.map some) part =
      some ((done ++ [progress call [part]]).map some) := by
    rw [pushToolCall, h_locate, h_index part List.mem_cons_self, started_eq h_part h_first]
    simp
  rw [pushToolCalls, h_start, Option.bind_some,
    pushToolCalls_rest (fun p h_p => h_index p (List.mem_cons_of_mem _ h_p))
      (fun p h_p => h.isPart (List.mem_cons_of_mem _ h_p)) h_new,
    List.singleton_append, h.progress_eq h_name]

theorem pushToolCalls_append (calls : Calls) (xs ys : List ChunkToolCall) :
    pushToolCalls calls (xs ++ ys) =
      (pushToolCalls calls xs).bind fun next => pushToolCalls next ys := by
  induction xs generalizing calls with
  | nil => rfl
  | cons x xs ih =>
    rw [List.cons_append, pushToolCalls, pushToolCalls, Option.bind_assoc]
    simp only [ih]

/-- Call by call, every call is appended. -/
theorem pushToolCalls_segments {calls : List StreamedToolCall}
    {segments : List (List ChunkToolCall)} (h : List.Forall₂ Carries calls segments)
    (h_index : ∀ segment ∈ segments, ∀ part ∈ segment, part.index = none)
    (h_given : ∀ call ∈ calls, call.id ≠ [] ∧ call.name ≠ []) (done : List StreamedToolCall)
    (h_ids : ((done ++ calls).map (·.id)).Nodup) :
    pushToolCalls (done.map some) segments.flatten = some ((done ++ calls).map some) := by
  induction h generalizing done with
  | nil => rw [List.append_nil]; rfl
  | @cons call segment calls segments h_call h_rest ih =>
    obtain ⟨h_id, h_name⟩ := h_given call List.mem_cons_self
    have h_new : call.id ∉ done.map (·.id) := by
      rw [List.map_append, List.nodup_append] at h_ids
      intro h_mem
      exact h_ids.2.2 _ h_mem _ (by simp) rfl
    have h_all : done ++ call :: calls = (done ++ [call]) ++ calls := by simp
    rw [List.flatten_cons, pushToolCalls_append,
      pushToolCalls_call (h_index segment List.mem_cons_self) h_call h_id h_name h_new,
      Option.bind_some, h_all]
    exact ih (fun s h_s => h_index s (List.mem_cons_of_mem _ h_s))
      (fun c h_c => h_given c (List.mem_cons_of_mem _ h_c)) _ (by rwa [← h_all])

/-! ## Indexed fragments -/

theorem join_setAt (calls : Calls) (i : Nat) (call : StreamedToolCall) (j : Nat) :
    ((setAt calls i call)[j]?).join = if j = i then some call else (calls[j]?).join := by
  induction i generalizing calls j with
  | zero =>
    cases calls with
    | nil => cases j <;> simp [setAt]
    | cons slot calls => cases j <;> simp [setAt]
  | succ i ih =>
    cases calls with
    | nil =>
      cases j with
      | zero => simp [setAt]
      | succ j => simpa [setAt] using ih [] j
    | cons slot calls =>
      cases j with
      | zero => simp [setAt]
      | succ j => simpa [setAt] using ih calls j

theorem join_modify (calls : Calls) (i : Nat) (f : StreamedToolCall → StreamedToolCall) (j : Nat) :
    ((calls.modify i fun slot => slot.map f)[j]?).join =
      if j = i then ((calls[j]?).join).map f else (calls[j]?).join := by
  rw [List.getElem?_modify]
  by_cases h : j = i
  · cases h_slot : calls[j]? with
    | none => simp
    | some slot => simp [h]
  · cases h_slot : calls[j]? with
    | none => simp
    | some slot => simp [h, Ne.symm h]

/-- The fragments of the call with an index. -/
def partsAt (parts : List ChunkToolCall) (j : Nat) : List ChunkToolCall :=
  parts.filter (·.index == some j)

theorem partsAt_concat {part : ChunkToolCall} {i : Nat} (h : part.index = some i)
    (parts : List ChunkToolCall) (j : Nat) :
    partsAt (parts ++ [part]) j = if j = i then partsAt parts j ++ [part] else partsAt parts j := by
  rw [partsAt, partsAt, List.filter_append, List.filter_singleton, h]
  by_cases h_j : j = i
  · simp [h_j]
  · have h_ne : (some i == some j) = false := by simpa using Ne.symm h_j
    rw [if_neg h_j, h_ne, cond_false, List.append_nil]

/-- What is at a position after some fragments. -/
def slotAt (numbered : List (Nat × StreamedToolCall)) (done : List ChunkToolCall) (j : Nat) :
    Option StreamedToolCall :=
  (numbered.lookup j).bind fun call =>
    if partsAt done j = [] then none else some (progress call (partsAt done j))

/-- Every call is as far as its own fragments. -/
def Collected (numbered : List (Nat × StreamedToolCall)) (done : List ChunkToolCall)
    (calls : Calls) : Prop :=
  ∀ j, (calls[j]?).join = slotAt numbered done j

/-- One indexed fragment. -/
theorem Collected.push {numbered : List (Nat × StreamedToolCall)} {done : List ChunkToolCall}
    {calls : Calls} (h : Collected numbered done calls) {part : ChunkToolCall} {i : Nat}
    {call : StreamedToolCall} (h_index : part.index = some i)
    (h_call : numbered.lookup i = some call) (h_part : IsPart call part)
    (h_first : partsAt done i = [] → part.id = some call.id) :
    ∃ next, pushToolCall calls part = some next ∧ Collected numbered (done ++ [part]) next := by
  have h_slot := h i
  rw [slotAt, h_call, Option.bind_some] at h_slot
  rw [pushToolCall, locate, h_index]
  simp only [Option.map_some]
  by_cases h_fresh : partsAt done i = []
  · -- the first fragment of its call
    rw [if_pos h_fresh] at h_slot
    have h_absent : present calls i = none := by
      rw [present, h_slot]
      rfl
    refine ⟨setAt calls i (started part), by rw [h_absent], ?_⟩
    intro j
    rw [join_setAt, slotAt, partsAt_concat h_index]
    by_cases h_j : j = i
    · rw [if_pos h_j, if_pos h_j, h_j, h_call, h_fresh, started_eq h_part (h_first h_fresh)]
      rfl
    · rw [if_neg h_j, if_neg h_j, h j, slotAt]
  · rw [if_neg h_fresh] at h_slot
    have h_present : present calls i = some i := by
      rw [present, h_slot]
      rfl
    refine ⟨calls.modify i fun slot => slot.map (merge · part), by rw [h_present], ?_⟩
    intro j
    rw [join_modify, slotAt, partsAt_concat h_index]
    by_cases h_j : j = i
    · rw [if_pos h_j, if_pos h_j, h_j, h_slot, h_call, Option.map_some, merge_progress h_part,
        Option.bind_some, if_neg (by simp)]
    · rw [if_neg h_j, if_neg h_j, h j, slotAt]

/-- All indexed fragments, whatever their order. -/
theorem Collected.pushAll {numbered : List (Nat × StreamedToolCall)}
    {parts : List ChunkToolCall}
    (h_index : ∀ part ∈ parts, ∃ i call, part.index = some i ∧ numbered.lookup i = some call)
    (h_carries : ∀ i call, numbered.lookup i = some call → Carries call (partsAt parts i))
    (rest : List ChunkToolCall) :
    ∀ done calls, parts = done ++ rest → Collected numbered done calls →
      ∃ final, pushToolCalls calls rest = some final ∧ Collected numbered parts final := by
  induction rest with
  | nil =>
    intro done calls h_parts h
    rw [List.append_nil] at h_parts
    exact ⟨calls, rfl, by rwa [h_parts]⟩
  | cons part rest ih =>
    intro done calls h_parts h
    have h_mem : part ∈ parts := by
      rw [h_parts]
      exact List.mem_append_right _ List.mem_cons_self
    obtain ⟨i, call, h_part, h_call⟩ := h_index part h_mem
    have h_carry := h_carries i call h_call
    have h_of : IsPart call part :=
      h_carry.isPart (List.mem_filter.mpr ⟨h_mem, by rw [h_part, beq_self_eq_true]⟩)
    have h_first : partsAt done i = [] → part.id = some call.id := by
      intro h_fresh
      obtain ⟨first, more, h_eq, h_id⟩ := h_carry.first
      rw [h_parts, partsAt, List.filter_append, ← partsAt, h_fresh, List.nil_append,
        List.filter_cons_of_pos (by rw [h_part, beq_self_eq_true])] at h_eq
      cases h_eq
      exact h_id
    obtain ⟨next, h_push, h_next⟩ := h.push h_part h_call h_of h_first
    obtain ⟨final, h_final, h_all⟩ := ih (done ++ [part]) next (by rw [h_parts]; simp) h_next
    exact ⟨final, by rw [pushToolCalls, h_push, Option.bind_some, h_final], h_all⟩

theorem lookup_of_mem {numbered : List (Nat × StreamedToolCall)}
    (h : numbered.Pairwise (fun m n => m.1 < n.1)) {n : Nat × StreamedToolCall}
    (h_mem : n ∈ numbered) : numbered.lookup n.1 = some n.2 := by
  induction numbered with
  | nil => cases h_mem
  | cons m numbered ih =>
    obtain ⟨h_first, h_rest⟩ := List.pairwise_cons.mp h
    obtain rfl | h_mem := List.mem_cons.mp h_mem
    · exact List.lookup_cons_self
    · have h_ne : (n.1 == m.1) = false := by
        have h_lt := h_first n h_mem
        simpa using (by omega : n.1 ≠ m.1)
      rw [List.lookup_cons, h_ne]
      exact ih h_rest h_mem

theorem mem_of_lookup {numbered : List (Nat × StreamedToolCall)} {i : Nat}
    {call : StreamedToolCall} (h : numbered.lookup i = some call) : (i, call) ∈ numbered := by
  obtain ⟨before, after, h_eq, -⟩ := List.lookup_eq_some_iff.mp h
  rw [h_eq]
  exact List.mem_append_right _ List.mem_cons_self

/-- An array that holds every call at its index holds the calls in order. -/
theorem filterMap_of_lookup {calls : Calls} {numbered : List (Nat × StreamedToolCall)}
    (h_sorted : numbered.Pairwise (fun m n => m.1 < n.1)) (base : Nat)
    (h_base : ∀ n ∈ numbered, base ≤ n.1)
    (h : ∀ j, (calls[j]?).join = numbered.lookup (base + j)) :
    calls.filterMap id = numbered.map Prod.snd := by
  induction calls generalizing numbered base with
  | nil =>
    cases numbered with
    | nil => rfl
    | cons n numbered =>
      have h_le := h_base n List.mem_cons_self
      have h_none := h (n.1 - base)
      rw [show base + (n.1 - base) = n.1 by omega, List.lookup_cons_self] at h_none
      cases h_none
  | cons slot calls ih =>
    have h_tail : ∀ j, (calls[j]?).join = numbered.lookup (base + 1 + j) := by
      intro j
      rw [show base + 1 + j = base + (j + 1) by omega, ← h (j + 1), List.getElem?_cons_succ]
    have h_slot : slot = numbered.lookup base := by
      have h_zero := h 0
      rwa [List.getElem?_cons_zero, Option.join_some, Nat.add_zero] at h_zero
    by_cases h_here : ∃ n more, numbered = n :: more ∧ n.1 = base
    · obtain ⟨n, more, rfl, h_n⟩ := h_here
      obtain ⟨h_first, h_rest⟩ := List.pairwise_cons.mp h_sorted
      have h_more : ∀ j, (calls[j]?).join = more.lookup (base + 1 + j) := by
        intro j
        have h_ne : (base + 1 + j == n.1) = false := by simpa using (by omega : base + 1 + j ≠ n.1)
        rw [h_tail j, List.lookup_cons, h_ne]
      have h_above : ∀ m ∈ more, base + 1 ≤ m.1 := by
        intro m h_m
        have h_lt := h_first m h_m
        omega
      have h_some : slot = some n.2 := by rw [h_slot, ← h_n, List.lookup_cons_self]
      rw [h_some, List.filterMap_cons_some (f := id) rfl, List.map_cons,
        ih h_rest (base + 1) h_above h_more]
    · -- a hole
      have h_above : ∀ n ∈ numbered, base + 1 ≤ n.1 := by
        intro n h_n
        cases numbered with
        | nil => cases h_n
        | cons first more =>
          have h_first := h_base first List.mem_cons_self
          have h_ne : first.1 ≠ base := fun h_eq => h_here ⟨first, more, rfl, h_eq⟩
          obtain rfl | h_more := List.mem_cons.mp h_n
          · omega
          · have h_lt := (List.pairwise_cons.mp h_sorted).1 n h_more
            omega
      have h_none : slot = none := by
        rw [h_slot]
        cases h_lookup : numbered.lookup base with
        | none => rfl
        | some call =>
          have h_le : base + 1 ≤ base := h_above _ (mem_of_lookup h_lookup)
          omega
      rw [h_none, List.filterMap_cons_none (f := id) rfl]
      exact ih h_sorted (base + 1) h_above h_tail

/-- Indexed fragments end in all calls, with holes for the indices that no call has. -/
theorem pushToolCalls_indexed {calls : List StreamedToolCall} {parts : List ChunkToolCall}
    (h : Indexed calls parts) (h_names : ∀ call ∈ calls, call.name ≠ []) :
    ∃ final, pushToolCalls [] parts = some final ∧ final.filterMap id = calls := by
  obtain ⟨numbered, rfl, h_sorted, h_index, h_carries⟩ := h
  have h_lookup : ∀ i call, numbered.lookup i = some call → Carries call (partsAt parts i) :=
    fun i call h_call => h_carries _ (mem_of_lookup h_call)
  have h_parts : ∀ part ∈ parts, ∃ i call, part.index = some i ∧ numbered.lookup i = some call := by
    intro part h_mem
    obtain ⟨n, h_n, h_part⟩ := h_index part h_mem
    exact ⟨n.1, n.2, h_part, lookup_of_mem h_sorted h_n⟩
  have h_empty : Collected numbered [] [] := by
    intro j
    cases h_call : numbered.lookup j <;> simp [slotAt, partsAt, h_call]
  obtain ⟨final, h_final, h_all⟩ :=
    Collected.pushAll h_parts h_lookup parts [] [] rfl h_empty
  refine ⟨final, h_final, filterMap_of_lookup h_sorted 0 (fun n _ => Nat.zero_le _) ?_⟩
  intro j
  rw [h_all j, slotAt, Nat.zero_add]
  cases h_call : numbered.lookup j with
  | none => rfl
  | some call =>
    have h_carry := h_lookup j call h_call
    have h_name := h_names call (List.mem_map_of_mem (mem_of_lookup h_call))
    obtain ⟨first, more, h_first, -⟩ := h_carry.first
    rw [Option.bind_some, if_neg (by rw [h_first]; exact List.cons_ne_nil _ _),
      h_carry.progress_eq h_name]

/-! ## Whole streams -/

namespace CompletionAccumulator

/-- The texts and the fragments of the chunks are collected apart. -/
theorem pushAll_eq (acc : CompletionAccumulator) (chunks : List Chunk) {calls : Calls}
    (h : pushToolCalls acc.calls (chunks.flatMap Chunk.parts) = some calls) :
    ∃ reason, acc.pushAll chunks =
      some ⟨acc.content ++ chunks.flatMap Chunk.text, reason, calls⟩ := by
  induction chunks generalizing acc with
  | nil =>
    refine ⟨acc.finishReason, ?_⟩
    rw [List.flatMap_nil, pushToolCalls, Option.some_inj] at h
    rw [pushAll, List.flatMap_nil, List.append_nil, ← h]
  | cons chunk chunks ih =>
    rw [List.flatMap_cons, pushToolCalls_append, Option.bind_eq_some_iff] at h
    obtain ⟨between, h_chunk, h_rest⟩ := h
    rw [pushAll, push]
    cases h_choice : chunk.choice with
    | none =>
      have h_text : chunk.text = [] := by rw [Chunk.text, h_choice]; rfl
      have h_parts : chunk.parts = [] := by rw [Chunk.parts, h_choice]; rfl
      rw [h_parts, pushToolCalls, Option.some_inj] at h_chunk
      obtain ⟨reason, h_next⟩ := ih acc (by rw [h_chunk]; exact h_rest)
      refine ⟨reason, ?_⟩
      rw [List.flatMap_cons, h_text, List.nil_append]
      exact h_next
    | some choice =>
      obtain ⟨reason, h_next⟩ := ih ⟨acc.content ++ chunk.text,
        (given choice.finishReason).or acc.finishReason, between⟩ h_rest
      refine ⟨reason, ?_⟩
      simp only [h_chunk, Option.map_some, Option.bind_some]
      rw [h_next, List.flatMap_cons, List.append_assoc]

end CompletionAccumulator

theorem filterMap_named {calls : Calls}
    (h : ∀ call ∈ calls.filterMap id, call.name ≠ []) :
    calls.filterMap (fun slot => slot.filter fun call => !call.name.isEmpty) =
      calls.filterMap id := by
  apply List.filterMap_congr
  intro slot h_slot
  cases slot with
  | none => rfl
  | some call =>
    have h_name := h call (List.mem_filterMap.mpr ⟨some call, h_slot, rfl⟩)
    simp [Option.filter, h_name]

/-- A stream in a supported style yields its text and its calls as they were sent. -/
theorem result_of_supported (text : Text) (calls : List StreamedToolCall) (chunks : List Chunk)
    (h_ids : (calls.map (·.id)).Nodup) (h_given : ∀ call ∈ calls, call.id ≠ [] ∧ call.name ≠ [])
    (h_text : chunks.flatMap Chunk.text = text)
    (h_calls : Supported calls (chunks.flatMap Chunk.parts)) :
    ∃ acc, CompletionAccumulator.pushAll {} chunks = some acc ∧
      acc.result.content = text ∧ acc.result.toolCalls = calls := by
  have h_final : ∃ final, pushToolCalls [] (chunks.flatMap Chunk.parts) = some final ∧
      final.filterMap id = calls := by
    obtain h_indexed | ⟨h_none, segments, h_parts, h_segments⟩ := h_calls
    · exact pushToolCalls_indexed h_indexed fun call h => (h_given call h).2
    · have h_index : ∀ segment ∈ segments, ∀ part ∈ segment, part.index = none := by
        intro segment h_segment part h_part
        apply h_none
        rw [h_parts]
        exact List.mem_flatten_of_mem h_segment h_part
      refine ⟨calls.map some, ?_, by simp⟩
      rw [h_parts]
      exact pushToolCalls_segments h_segments h_index h_given [] h_ids
  obtain ⟨final, h_push, h_filter⟩ := h_final
  obtain ⟨reason, h_all⟩ := CompletionAccumulator.pushAll_eq {} chunks h_push
  refine ⟨_, h_all, h_text, ?_⟩
  have h_named : ∀ call ∈ final.filterMap id, call.name ≠ [] := by
    rw [h_filter]
    exact fun call h => (h_given call h).2
  rw [CompletionAccumulator.result, filterMap_named h_named, h_filter]

/-- Two calls, their fragments in turn, the second one first; one repeats its name. -/
theorem result_of_supported_interleaved :
    ∃ acc, CompletionAccumulator.pushAll {}
        [⟨some [⟨some ⟨some [72], some [⟨some 1, some [98], some ⟨some [110], none⟩⟩]⟩, none⟩]⟩,
         ⟨some []⟩,
         ⟨some [⟨some ⟨none, some [⟨some 0, some [97], some ⟨some [109], some [123]⟩⟩,
           ⟨some 1, none, some ⟨some [110], some [91, 93]⟩⟩]⟩, none⟩]⟩,
         ⟨some [⟨some ⟨some [105], some [⟨some 0, some [], some ⟨none, some [125]⟩⟩]⟩,
           some [115]⟩]⟩] = some acc ∧
      acc.result.content = [72, 105] ∧
      acc.result.toolCalls = [⟨[97], [109], [123, 125]⟩, ⟨[98], [110], [91, 93]⟩] := by
  refine result_of_supported _ _ _ (by decide) (by decide) rfl (.inl ?_)
  refine ⟨[(0, ⟨[97], [109], [123, 125]⟩), (1, ⟨[98], [110], [91, 93]⟩)], rfl, by decide, ?_, ?_⟩
  · decide
  · intro n h_n
    rw [List.mem_cons, List.mem_singleton] at h_n
    obtain rfl | rfl := h_n
    · exact ⟨⟨_, _, rfl, rfl⟩, by decide, by decide, ⟨_, List.mem_cons_self, rfl⟩, rfl⟩
    · exact ⟨⟨_, _, rfl, rfl⟩, by decide, by decide, ⟨_, List.mem_cons_self, rfl⟩, rfl⟩

end Kubek.Assistant.CompletionStream
