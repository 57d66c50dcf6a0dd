/-
  Kubek.Assistant.Approval

  The assistant changes nothing without approval, in every run of a conversation
  (`approvedOnly_of_reachable`).

  A pending call is in the last message, was planned and shown, and neither decided nor
  executed so far; nothing else waits for a confirmation. While a run is on, the number
  of completions it asked for is at most the number of assistant messages since the user
  last wrote, which the loop compares with its limit.
-/

import Kubek.Assistant.AgentLoop

namespace Kubek.Assistant

open JsText Transition

variable {Json Args : Type} {json : JsonApi Json}

/-! ## The log -/

namespace LogEntry

/-- The step limit of a run that began with the entry. -/
def starts : LogEntry Args → Option Nat
  | .user maxSteps => some maxSteps
  | .decided _ _ maxSteps => some maxSteps
  | _ => none

def isRequest : LogEntry Args → Bool
  | .request _ => true
  | _ => false

/-- The call that the entry decides, or runs as a write. -/
def settles : LogEntry Args → Option Nat
  | .decided callId _ _ => some callId
  | .executed callId _ _ .write => some callId
  | _ => none

end LogEntry

/-- Completions asked for since the user last wrote or decided. -/
def requestsSince : List (LogEntry Args) → Nat
  | [] => 0
  | e :: log =>
      match e.starts with
      | some _ => 0
      | none => requestsSince log + if e.isRequest then 1 else 0

/-- The step limit of the run that began last. -/
def stepsAllowed : List (LogEntry Args) → Nat
  | [] => 0
  | e :: log => e.starts.getD (stepsAllowed log)

/-- What held when the entry was written, `older` being the log then. -/
def EntryOk (older : List (LogEntry Args)) : LogEntry Args → Prop
  | .decided callId _ _ => ∀ b n, .decided callId b n ∉ older
  | .executed callId name args .write =>
      (∃ n, .decided callId true n ∈ older) ∧
        (∃ preview, .planned callId name args preview ∈ older) ∧
        ∀ name' args', .executed callId name' args' .write ∉ older
  | .request messages => Answered messages ∧ requestsSince older < stepsAllowed older
  | _ => True

/-- Every entry was in order when it was written. -/
def LogOk (log : List (LogEntry Args)) : Prop :=
  ∀ newer e older, log = newer ++ e :: older → EntryOk older e

theorem LogOk.cons {log : List (LogEntry Args)} {e : LogEntry Args} (h : LogOk log)
    (h_e : EntryOk log e) : LogOk (e :: log) := by
  intro newer e' older h_log
  cases newer with
  | nil =>
    obtain ⟨rfl, rfl⟩ := List.cons.inj h_log
    exact h_e
  | cons _ newer => exact h newer e' older (List.cons.inj h_log).2

theorem requestsSince_append {between : List (LogEntry Args)} (older : List (LogEntry Args))
    {start : LogEntry Args} {maxSteps : Nat} (h_start : start.starts = some maxSteps)
    (h_between : ∀ e ∈ between, e.starts = none) :
    requestsSince (between ++ start :: older) = between.countP LogEntry.isRequest ∧
      stepsAllowed (between ++ start :: older) = maxSteps := by
  induction between with
  | nil =>
    constructor
    · rw [List.nil_append, requestsSince, h_start]
      rfl
    · rw [List.nil_append, stepsAllowed, h_start]
      rfl
  | cons e between ih =>
    have h_e := h_between e List.mem_cons_self
    obtain ⟨ih_requests, ih_allowed⟩ := ih fun e' h_e' => h_between e' (List.mem_cons_of_mem e h_e')
    constructor
    · rw [List.cons_append, requestsSince, h_e, List.countP_cons, ih_requests]
    · rw [List.cons_append, stepsAllowed, h_e, Option.getD_none, ih_allowed]

/-- Between two messages or decisions of the user a run keeps to its limit. -/
theorem LogOk.steps {log : List (LogEntry Args)} (h : LogOk log) (newer : List (LogEntry Args))
    {between older : List (LogEntry Args)} {start : LogEntry Args} {maxSteps : Nat}
    (h_log : log = newer ++ (between ++ start :: older)) (h_start : start.starts = some maxSteps)
    (h_between : ∀ e ∈ between, e.starts = none) :
    between.countP LogEntry.isRequest ≤ maxSteps := by
  induction between generalizing newer with
  | nil => exact Nat.zero_le maxSteps
  | cons e between ih =>
    have h_rest : ∀ e' ∈ between, e'.starts = none :=
      fun e' h_e' => h_between e' (List.mem_cons_of_mem e h_e')
    have h_ok := h newer e (between ++ start :: older) h_log
    obtain ⟨h_requests, h_allowed⟩ := requestsSince_append older h_start h_rest
    rw [List.countP_cons]
    by_cases h_request : e.isRequest = true
    · cases e with
      | request messages =>
        have h_lt := h_ok.2
        rw [h_requests, h_allowed] at h_lt
        rw [if_pos h_request]
        omega
      | _ => cases h_request
    · rw [if_neg h_request, Nat.add_zero]
      refine ih (newer ++ [e]) ?_ h_rest
      rw [h_log, List.append_assoc]
      rfl

/-! ## Stored messages -/

/-- All stored calls. -/
def Store.calls (s : Store Json Args) : List (StoredToolCall Json) :=
  s.messages.flatMap StoredMessage.toolCalls

/-- No call waits for the user. -/
def Store.Quiet (s : Store Json Args) : Prop := ∀ call ∈ s.calls, call.status ≠ .pending

/-- A call that waits for the user was shown with the arguments it will run with, and is
    neither decided nor executed. -/
structure Waiting (tools : String → Option (AssistantTool json Args))
    (log : List (LogEntry Args)) (call : StoredToolCall Json) : Prop where
  shown : ∃ tool args preview, tools call.name = some tool ∧
    tool.safeParse (json.readBack call.args) = .ok args ∧
      .planned call.id call.name args preview ∈ log
  open_ : ∀ e ∈ log, e.settles ≠ some call.id

structure StoreInv (tools : String → Option (AssistantTool json Args))
    (s : Store Json Args) : Prop where
  ids : (s.calls.map StoredToolCall.id).Nodup
  idsLt : ∀ call ∈ s.calls, call.id < s.nextId
  logLt : ∀ e ∈ s.log, ∀ id, e.settles = some id → id < s.nextId
  last : ∀ m ∈ s.messages.dropLast, ∀ call ∈ m.toolCalls, call.status ≠ .pending
  waiting : ∀ call ∈ s.calls, call.status = .pending → Waiting tools s.log call
  log : LogOk s.log

/-- A run that goes on asked for no more completions than there are turns, and its limit is
    that of the last start. -/
structure Ready (s : Store Json Args) (config : RunConfig) : Prop where
  requests : requestsSince s.log ≤ stepsSinceUser s.messages
  limit : stepsAllowed s.log = config.maxSteps

/-- What a run relies on while it waits. -/
def PhaseInv (s : Store Json Args) (config : RunConfig) : Phase json Args → Prop
  | .completing _ | .planning _ _ =>
      s.Quiet ∧ requestsSince s.log ≤ stepsSinceUser s.messages + 1 ∧
        stepsAllowed s.log = config.maxSteps
  | .executing _ rest _ =>
      (∀ call ∈ rest, ∀ tool args, call.target = some (tool, args) → tool.kind = .read) ∧
        Ready s config
  | .deciding _ => Ready s config
  | .settled => True

section Messages

variable {s : Store Json Args}

theorem mem_calls {call : StoredToolCall Json} :
    call ∈ s.calls ↔ ∃ m ∈ s.messages, call ∈ m.toolCalls := List.mem_flatMap

theorem calls_save (id : Nat) (content : String) (error : Option String)
    (toolCalls : List (StoredToolCall Json)) :
    (s.save id content error toolCalls).calls = s.calls ++ toolCalls := by
  rw [Store.calls, Store.save, List.flatMap_append, Store.calls]
  simp

theorem calls_updateToolCall (callId : Nat) (patch : StoredToolCall Json → StoredToolCall Json) :
    (s.updateToolCall callId patch).calls =
      s.calls.map fun c => if c.id = callId then patch c else c := by
  rw [Store.calls, Store.updateToolCall, List.flatMap_map, Store.calls, List.map_flatMap]

/-- The turns depend on the roles only. -/
theorem stepsSinceUser_map (f : StoredMessage Json → StoredMessage Json)
    (h : ∀ m, (f m).role = m.role) (messages : List (StoredMessage Json)) :
    stepsSinceUser (messages.map f) = stepsSinceUser messages := by
  rw [stepsSinceUser, ← List.map_reverse, List.takeWhile_map, List.length_map, stepsSinceUser]
  congr 2
  funext m
  simp [h]

theorem stepsSinceUser_append (messages : List (StoredMessage Json)) {m : StoredMessage Json}
    (h : m.role = .assistant) : stepsSinceUser (messages ++ [m]) = stepsSinceUser messages + 1 := by
  rw [stepsSinceUser, List.reverse_append, List.reverse_singleton, List.singleton_append,
    List.takeWhile_cons, if_pos (by rw [h]; rfl), List.length_cons, stepsSinceUser]

theorem stepsSinceUser_list (s : Store Json Args) :
    stepsSinceUser (s.list json) = stepsSinceUser s.messages := by
  rw [Store.list, stepsSinceUser_map]
  exact fun _ => rfl

theorem hasPending_list (s : Store Json Args) :
    hasPending (s.list json) = hasPending s.messages := by
  rw [hasPending, Store.list, List.getLast?_map, hasPending]
  cases s.messages.getLast? with
  | none => rfl
  | some m =>
    rw [Option.map_some, Option.any_some, Option.any_some, List.any_map]
    rfl

/-- When the last message has no pending call, no message has. -/
theorem quiet_of_hasPending
    (h : ∀ m ∈ s.messages.dropLast, ∀ call ∈ m.toolCalls, call.status ≠ .pending)
    (h_last : hasPending s.messages = false) : s.Quiet := by
  intro call h_call
  obtain ⟨m, h_m, h_in⟩ := mem_calls.mp h_call
  have h_ne : s.messages ≠ [] := List.ne_nil_of_mem h_m
  rw [← List.dropLast_append_getLast h_ne] at h_m
  rcases List.mem_append.mp h_m with h_old | h_eq
  · exact h m h_old call h_in
  · have h_get : s.messages.getLast? = some m := by
      rw [List.getLast?_eq_some_getLast h_ne, List.mem_singleton.mp h_eq]
    rw [hasPending, h_get, Option.any_some, List.any_eq_false] at h_last
    simpa using h_last call h_in

end Messages

/-! ## Writes -/

namespace StoreInv

variable {tools : String → Option (AssistantTool json Args)} {s : Store Json Args}

/-- Ids may be drawn and not used. -/
theorem raiseId (h : StoreInv tools s) {n : Nat} (h_n : s.nextId ≤ n) :
    StoreInv tools { s with nextId := n } where
  ids := h.ids
  idsLt call h_call := Nat.lt_of_lt_of_le (h.idsLt call h_call) h_n
  logLt e h_e id h_id := Nat.lt_of_lt_of_le (h.logLt e h_e id h_id) h_n
  last := h.last
  waiting := h.waiting
  log := h.log

/-- An entry is logged that settles no waiting call. -/
theorem record (h : StoreInv tools s) {e : LogEntry Args} (h_ok : EntryOk s.log e)
    (h_lt : ∀ id, e.settles = some id → id < s.nextId)
    (h_open : ∀ call ∈ s.calls, call.status = .pending → e.settles ≠ some call.id) :
    StoreInv tools (s.record e) where
  ids := h.ids
  idsLt := h.idsLt
  logLt e' h_e' id h_id := by
    rcases List.mem_cons.mp h_e' with rfl | h_old
    · exact h_lt id h_id
    · exact h.logLt e' h_old id h_id
  last := h.last
  waiting call h_call h_pending := by
    have h_waiting := h.waiting call h_call h_pending
    obtain ⟨tool, args, preview, h_tool, h_parse, h_planned⟩ := h_waiting.shown
    refine ⟨⟨tool, args, preview, h_tool, h_parse, List.mem_cons_of_mem e h_planned⟩, ?_⟩
    intro e' h_e'
    rcases List.mem_cons.mp h_e' with rfl | h_old
    · exact h_open call h_call h_pending
    · exact h_waiting.open_ e' h_old
  log := h.log.cons h_ok

/-- A message comes after messages without pending calls. -/
theorem append (h : StoreInv tools s) (h_quiet : s.Quiet) (m : StoredMessage Json)
    (h_ids : (m.toolCalls.map StoredToolCall.id).Nodup)
    (h_new : ∀ call ∈ m.toolCalls, call.id < s.nextId ∧ ∀ old ∈ s.calls, old.id ≠ call.id)
    (h_waiting : ∀ call ∈ m.toolCalls, call.status = .pending → Waiting tools s.log call) :
    StoreInv tools { s with messages := s.messages ++ [m] } := by
  have h_calls : ({ s with messages := s.messages ++ [m] } : Store Json Args).calls =
      s.calls ++ m.toolCalls := by
    rw [Store.calls, List.flatMap_append, List.flatMap_singleton]
    rfl
  refine ⟨?_, ?_, h.logLt, ?_, ?_, h.log⟩
  · rw [h_calls, List.map_append, List.nodup_append]
    refine ⟨h.ids, h_ids, ?_⟩
    intro a h_a b h_b h_eq
    obtain ⟨old, h_old, rfl⟩ := List.mem_map.mp h_a
    obtain ⟨new, h_new', rfl⟩ := List.mem_map.mp h_b
    exact (h_new new h_new').2 old h_old h_eq
  · intro call h_call
    rw [h_calls] at h_call
    rcases List.mem_append.mp h_call with h_old | h_one
    · exact h.idsLt call h_old
    · exact (h_new call h_one).1
  · intro m' h_m' call h_call
    rw [show ({ s with messages := s.messages ++ [m] } : Store Json Args).messages.dropLast =
      s.messages from List.dropLast_concat] at h_m'
    exact h_quiet call (mem_calls.mpr ⟨m', h_m', h_call⟩)
  · intro call h_call h_pending
    rw [h_calls] at h_call
    rcases List.mem_append.mp h_call with h_old | h_one
    · exact absurd h_pending (h_quiet call h_old)
    · exact h_waiting call h_one h_pending

/-- A call gets a status that is not pending. -/
theorem updateToolCall (h : StoreInv tools s) (callId : Nat)
    {patch : StoredToolCall Json → StoredToolCall Json} (h_id : ∀ c, (patch c).id = c.id)
    (h_status : ∀ c, (patch c).status ≠ .pending) :
    StoreInv tools (s.updateToolCall callId patch) := by
  have h_calls := calls_updateToolCall (s := s) callId patch
  have h_ids : (s.updateToolCall callId patch).calls.map StoredToolCall.id =
      s.calls.map StoredToolCall.id := by
    rw [h_calls, List.map_map]
    refine List.map_congr_left fun c _ => ?_
    show (if c.id = callId then patch c else c).id = c.id
    split
    · exact h_id c
    · rfl
  -- a call that is pending after the update was there before
  have h_pending : ∀ (calls : List (StoredToolCall Json)) call,
      call ∈ (calls.map fun c => if c.id = callId then patch c else c) →
        call.status = .pending → call ∈ calls ∧ call.id ≠ callId := by
    intro calls call h_call h_eq
    obtain ⟨c, h_c, h_patch⟩ := List.mem_map.mp h_call
    by_cases h_c_id : c.id = callId
    · rw [if_pos h_c_id] at h_patch
      rw [← h_patch] at h_eq
      exact absurd h_eq (h_status c)
    · rw [if_neg h_c_id] at h_patch
      exact ⟨h_patch ▸ h_c, h_patch ▸ h_c_id⟩
  refine ⟨?_, ?_, h.logLt, ?_, ?_, h.log⟩
  · rw [h_ids]
    exact h.ids
  · intro call h_call
    have h_mem : call.id ∈ (s.updateToolCall callId patch).calls.map StoredToolCall.id :=
      List.mem_map_of_mem h_call
    rw [h_ids] at h_mem
    obtain ⟨old, h_old, h_eq⟩ := List.mem_map.mp h_mem
    rw [← h_eq]
    exact h.idsLt old h_old
  · intro m h_m call h_call h_eq
    rw [Store.updateToolCall, ← List.map_dropLast] at h_m
    obtain ⟨old, h_old, rfl⟩ := List.mem_map.mp h_m
    exact h.last old h_old call (h_pending old.toolCalls call h_call h_eq).1 h_eq
  · intro call h_call h_eq
    rw [h_calls] at h_call
    exact h.waiting call (h_pending s.calls call h_call h_eq).1 h_eq

/-- After its update no call of that id is pending. -/
theorem not_pending_updateToolCall (callId : Nat)
    (patch : StoredToolCall Json → StoredToolCall Json)
    (h_status : ∀ c, (patch c).status ≠ .pending) {call : StoredToolCall Json}
    (h_call : call ∈ (s.updateToolCall callId patch).calls) (h_pending : call.status = .pending) :
    call.id ≠ callId := by
  rw [calls_updateToolCall] at h_call
  obtain ⟨c, -, h_patch⟩ := List.mem_map.mp h_call
  by_cases h_c_id : c.id = callId
  · rw [if_pos h_c_id] at h_patch
    rw [← h_patch] at h_pending
    exact absurd h_pending (h_status c)
  · rw [if_neg h_c_id] at h_patch
    exact h_patch ▸ h_c_id

/-- The calls of one message have distinct ids. -/
theorem nodup_message (h : StoreInv tools s) {m : StoredMessage Json} (h_m : m ∈ s.messages) :
    (m.toolCalls.map StoredToolCall.id).Nodup := by
  refine List.Nodup.sublist ?_ h.ids
  refine List.Sublist.map _ ?_
  rw [Store.calls, List.flatMap_def]
  exact List.sublist_flatten_of_mem (List.mem_map_of_mem h_m)

theorem answered_list (h : StoreInv tools s) (systemPrompt : String) :
    Answered (.system systemPrompt :: buildHistory json.stringify (s.list json)) := by
  refine answered_buildHistory json.stringify (s.list json) fun message h_message => ?_
  obtain ⟨m, h_m, rfl⟩ := List.mem_map.mp h_message
  have h_ids : (m.toolCalls.map fun c => c.deserialize json).map StoredToolCall.id =
      m.toolCalls.map StoredToolCall.id := by
    rw [List.map_map]
    rfl
  show ((m.toolCalls.map fun c => c.deserialize json).map StoredToolCall.id).Nodup
  rw [h_ids]
  exact h.nodup_message h_m

end StoreInv

/-! ## Runs of the loop -/

/-- The messages and the wait of a run after one of its steps. -/
structure StepInv (tools : String → Option (AssistantTool json Args)) (config : RunConfig)
    (r : Store Json Args × Phase json Args) : Prop where
  store : StoreInv tools r.1
  phase : PhaseInv r.1 config r.2

namespace StoreInv

variable {tools : String → Option (AssistantTool json Args)} {s : Store Json Args}
  {config : RunConfig}

/-- A message without calls ends a run. -/
theorem saveLast (h : StoreInv tools s) (h_quiet : s.Quiet) (id : Nat) (content : String)
    (error : Option String) : StoreInv tools (s.save id content error []) := by
  refine h.append h_quiet ⟨id, .assistant, content, error, []⟩ List.nodup_nil ?_ ?_
  · intro call h_call
    cases h_call
  · intro call h_call
    cases h_call

theorem loop (h : StoreInv tools s) (h_ready : Ready s config) :
    StepInv tools config (s.loop json config) := by
  simp only [Store.loop]
  rw [hasPending_list, stepsSinceUser_list]
  by_cases h_pending : hasPending s.messages = true
  · rw [if_pos h_pending]
    exact ⟨h, trivial⟩
  rw [if_neg h_pending]
  have h_quiet : s.Quiet := quiet_of_hasPending h.last (Bool.eq_false_iff.mpr h_pending)
  have h_raised : StoreInv tools { s with nextId := s.nextId + 1 } := h.raiseId (Nat.le_succ _)
  by_cases h_limit : stepsSinceUser s.messages ≥ config.maxSteps
  · rw [if_pos h_limit]
    exact ⟨h_raised.saveLast h_quiet _ _ _, trivial⟩
  rw [if_neg h_limit]
  have h_requests := h_ready.requests
  have h_allowed := h_ready.limit
  refine ⟨h_raised.record ⟨h.answered_list config.systemPrompt, ?_⟩ ?_ ?_, h_quiet, ?_, ?_⟩
  · show requestsSince s.log < stepsAllowed s.log
    omega
  · intro id h_id
    cases h_id
  · intro call _ _ h_id
    cases h_id
  · show requestsSince s.log + 1 ≤ stepsSinceUser s.messages + 1
    omega
  · exact h_allowed

theorem completionFailed (h : StoreInv tools s) (h_quiet : s.Quiet) (aborted : Bool)
    (messageId : Nat) (streamed error : String) :
    StepInv tools config (s.completionFailed json aborted messageId streamed error) :=
  ⟨h.saveLast h_quiet _ _ _, trivial⟩

theorem afterExecutions (h : StoreInv tools s) (h_ready : Ready s config)
    (aborted pending : Bool) :
    StepInv tools config
      (s.afterExecutions config aborted pending : Store Json Args × Phase json Args) := by
  rw [Store.afterExecutions]
  split
  · exact ⟨h, trivial⟩
  split
  · exact ⟨h, trivial⟩
  · exact h.loop h_ready

theorem executeNext (h : StoreInv tools s) (h_ready : Ready s config) (aborted pending : Bool)
    (calls : List (PlannedCall json Args))
    (h_read : ∀ call ∈ calls, ∀ tool args, call.target = some (tool, args) → tool.kind = .read) :
    StepInv tools config (s.executeNext config aborted pending calls) := by
  induction calls with
  | nil => exact h.afterExecutions h_ready aborted pending
  | cons call rest ih =>
    have h_rest : ∀ c ∈ rest, ∀ tool args, c.target = some (tool, args) → tool.kind = .read :=
      fun c h_c => h_read c (List.mem_cons_of_mem call h_c)
    rw [Store.executeNext]
    split
    · exact ih h_rest
    · rename_i tool args h_target
      have h_kind : tool.kind = .read := h_read call List.mem_cons_self tool args h_target
      rw [h_kind]
      refine ⟨h.record trivial ?_ ?_, h_rest, h_ready.requests, h_ready.limit⟩
      · intro id h_id
        cases h_id
      · intro c _ _ h_id
        cases h_id

theorem storeResult (h : StoreInv tools s) (callId : Nat) (result : ToolResult) :
    StoreInv tools (s.storeResult callId result) := by
  refine h.updateToolCall callId (fun _ => rfl) fun c => ?_
  show (if result.isError then ToolCallStatus.error else .done) ≠ .pending
  split
  · exact ToolCallStatus.noConfusion
  · exact ToolCallStatus.noConfusion

end StoreInv

theorem Ready.updateToolCall {s : Store Json Args} {config : RunConfig} (h : Ready s config)
    (callId : Nat) (patch : StoredToolCall Json → StoredToolCall Json) :
    Ready (s.updateToolCall callId patch) config := by
  refine ⟨?_, h.limit⟩
  show requestsSince s.log ≤ stepsSinceUser (s.updateToolCall callId patch).messages
  have h_steps : stepsSinceUser (s.updateToolCall callId patch).messages =
      stepsSinceUser s.messages := by
    rw [Store.updateToolCall, stepsSinceUser_map]
    exact fun _ => rfl
  rw [h_steps]
  exact h.requests

/-! ## Planning -/

section Planning

variable {tools : String → Option (AssistantTool json Args)}

/-- What a planned call is: an error, a read that runs now, or a write that was shown with
    the arguments its stored form gives. -/
structure PlanOk (tools : String → Option (AssistantTool json Args))
    (call : PlannedCall json Args) : Prop where
  read : call.stored.status = .running → ∀ tool args, call.target = some (tool, args) →
    tool.kind = .read
  write : call.stored.status = .pending → ∃ tool args preview,
    call.target = some (tool, args) ∧ call.stored.preview = some preview ∧
      tools call.stored.name = some tool ∧
        tool.safeParse (json.readBack call.stored.args) = .ok args

/-- Arguments that parse are stored as they are. -/
theorem parseToolArgs_ok {tool : AssistantTool json Args} {rawText : String} {args : Args}
    {raw : Json} (h : parseToolArgs tool rawText = (.ok args, raw)) :
    tool.safeParse raw = .ok args := by
  rw [parseToolArgs] at h
  split at h
  · cases h
  · rename_i value h_value
    simp only at h
    split at h
    · rename_i args' h_parse
      obtain ⟨h_args, h_raw⟩ := Prod.mk.inj h
      rw [if_pos (tool.object_only value args' h_parse)] at h_raw
      rw [← h_raw, h_parse]
      exact h_args
    · cases h

theorem plan_id (id messageId : Nat) (call : StreamedToolCall) (outcome : PlanOutcome) :
    (plan tools id messageId call outcome).stored.id = id := by
  simp only [plan]
  split
  · rfl
  split
  · rfl
  split
  · rfl
  split
  · rfl
  split <;> rfl

theorem plan_ok (id messageId : Nat) (call : StreamedToolCall) (outcome : PlanOutcome) :
    PlanOk tools (plan tools id messageId call outcome) := by
  have h_error : ∀ (stored : StoredToolCall Json) target, stored.status = .error →
      PlanOk tools (⟨stored, target⟩ : PlannedCall json Args) := by
    intro stored target h_status
    constructor
    · intro h_running
      rw [h_status] at h_running
      cases h_running
    · intro h_pending
      rw [h_status] at h_pending
      cases h_pending
  simp only [plan]
  split
  · exact h_error _ _ rfl
  rename_i tool h_tool
  split
  · exact h_error _ _ rfl
  rename_i args raw h_parse
  split
  · exact h_error _ _ rfl
  split
  · -- a read call runs now
    rename_i h_kind
    constructor
    · intro _ tool' args' h_target
      cases h_target
      exact h_kind
    · intro h_pending
      cases h_pending
  split
  · -- a write call waits, with its preview
    rename_i preview _
    constructor
    · intro h_running
      cases h_running
    · intro _
      exact ⟨tool, args, preview, rfl, rfl, h_tool,
        tool.stored raw args (parseToolArgs_ok h_parse)⟩
  · exact h_error _ _ rfl

/-- The calls of one completion, under consecutive ids. -/
theorem planAll_spec (tools : String → Option (AssistantTool json Args)) (id messageId : Nat) (calls : List StreamedToolCall)
    (outcome : Nat → PlanOutcome) :
    (∀ call ∈ planAll tools id messageId calls outcome, PlanOk tools call) ∧
      (planAll tools id messageId calls outcome).map (fun call => call.stored.id) =
        List.range' id (planAll tools id messageId calls outcome).length := by
  induction calls generalizing id outcome with
  | nil =>
    refine ⟨fun call h_call => ?_, rfl⟩
    cases h_call
  | cons call calls ih =>
    obtain ⟨ih_ok, ih_ids⟩ := ih (id + 1) fun i => outcome (i + 1)
    constructor
    · intro c h_c
      rcases List.mem_cons.mp h_c with rfl | h_rest
      · exact plan_ok id messageId call (outcome 0)
      · exact ih_ok c h_rest
    · rw [planAll, List.map_cons, plan_id, ih_ids, List.length_cons, List.range'_succ]

theorem mem_plannedEntries {planned : List (PlannedCall json Args)} {e : LogEntry Args}
    (h : e ∈ planned.reverse.filterMap plannedEntry) :
    ∃ callId name args preview, e = .planned callId name args preview := by
  obtain ⟨call, -, h_e⟩ := List.mem_filterMap.mp h
  rw [plannedEntry] at h_e
  split at h_e
  · split at h_e
    · exact ⟨_, _, _, _, (Option.some.inj h_e).symm⟩
    · cases h_e
  · cases h_e

/-- Planned calls change neither the count of requests nor the limit. -/
theorem requestsSince_planned {entries log : List (LogEntry Args)}
    (h : ∀ e ∈ entries, ∃ callId name args preview, e = .planned callId name args preview) :
    requestsSince (entries ++ log) = requestsSince log ∧
      stepsAllowed (entries ++ log) = stepsAllowed log := by
  induction entries with
  | nil => exact ⟨rfl, rfl⟩
  | cons e entries ih =>
    obtain ⟨_, _, _, _, rfl⟩ := h e List.mem_cons_self
    exact ih fun e' h_e' => h e' (List.mem_cons_of_mem _ h_e')

theorem StoreInv.recordPlanned {s : Store Json Args} (h : StoreInv tools s)
    (entries : List (LogEntry Args))
    (h_planned : ∀ e ∈ entries, ∃ callId name args preview,
      e = .planned callId name args preview) :
    StoreInv tools { s with log := entries ++ s.log } := by
  induction entries with
  | nil => exact h
  | cons e entries ih =>
    obtain ⟨_, _, _, _, rfl⟩ := h_planned e List.mem_cons_self
    refine (ih fun e' h_e' => h_planned e' (List.mem_cons_of_mem _ h_e')).record trivial ?_ ?_
    · intro id h_id
      cases h_id
    · intro call _ _ h_id
      cases h_id

/-- The message of a completion is stored with its planned calls. -/
theorem StoreInv.savePlanned {s : Store Json Args} (h : StoreInv tools s) (h_quiet : s.Quiet)
    (messageId : Nat) (content : String) (calls : List StreamedToolCall)
    (outcome : Nat → PlanOutcome) {planned : List (PlannedCall json Args)}
    (h_all : planned = planAll tools s.nextId messageId calls outcome) :
    StoreInv tools (({ s with
        nextId := s.nextId + planned.length
        log := planned.reverse.filterMap plannedEntry ++ s.log } : Store Json Args).save messageId
      content none (planned.map PlannedCall.stored)) := by
  obtain ⟨h_ok, h_ids⟩ := planAll_spec tools s.nextId messageId calls outcome
  rw [← h_all] at h_ok h_ids
  have h_range : (planned.map PlannedCall.stored).map StoredToolCall.id =
      List.range' s.nextId planned.length := by
    rw [List.map_map]
    exact h_ids
  have h_fresh : ∀ call ∈ planned.map PlannedCall.stored,
      s.nextId ≤ call.id ∧ call.id < s.nextId + planned.length := by
    intro call h_call
    have h_mem := List.mem_map_of_mem (f := StoredToolCall.id) h_call
    rw [h_range, List.mem_range'_1] at h_mem
    exact h_mem
  have h_logged := (h.raiseId (Nat.le_add_right _ planned.length)).recordPlanned
    (planned.reverse.filterMap plannedEntry) fun e h_e => mem_plannedEntries h_e
  refine h_logged.append h_quiet
    ⟨messageId, .assistant, content, none, planned.map PlannedCall.stored⟩ ?_ ?_ ?_
  · rw [h_range]
    exact List.nodup_range'
  · intro call h_call
    obtain ⟨h_ge, h_lt⟩ := h_fresh call h_call
    refine ⟨h_lt, fun old h_old h_eq => ?_⟩
    have h_old_lt := h.idsLt old h_old
    omega
  · intro call h_call h_pending
    obtain ⟨p, h_p, rfl⟩ := List.mem_map.mp h_call
    obtain ⟨tool, args, preview, h_target, h_preview, h_tool, h_parse⟩ :=
      (h_ok p h_p).write h_pending
    have h_entry : plannedEntry p = some (.planned p.stored.id p.stored.name args preview) := by
      rw [plannedEntry, h_target, h_preview]
      exact if_pos h_pending
    have h_mem : LogEntry.planned p.stored.id p.stored.name args preview ∈
        planned.reverse.filterMap plannedEntry :=
      List.mem_filterMap.mpr ⟨p, List.mem_reverse.mpr h_p, h_entry⟩
    refine ⟨⟨tool, args, preview, h_tool, h_parse, List.mem_append_left _ h_mem⟩, ?_⟩
    intro e h_e h_settles
    rcases List.mem_append.mp h_e with h_new | h_old
    · obtain ⟨_, _, _, _, rfl⟩ := mem_plannedEntries h_new
      cases h_settles
    · -- the log knows older ids only
      have h_lt := h.logLt e h_old _ h_settles
      have h_ge := (h_fresh _ h_call).1
      omega

theorem StoreInv.plannedStep {s : Store Json Args} {config : RunConfig} (h : StoreInv tools s)
    (h_quiet : s.Quiet) (h_requests : requestsSince s.log ≤ stepsSinceUser s.messages + 1)
    (h_limit : stepsAllowed s.log = config.maxSteps) (aborted : Bool) (messageId : Nat)
    (completion : ChatCompletion) (outcome : Nat → PlanOutcome) :
    StepInv tools config
      (s.plannedStep tools config aborted messageId completion outcome) := by
  simp only [Store.plannedStep]
  have h_saved := h.savePlanned h_quiet messageId completion.content completion.toolCalls
    outcome rfl
  split
  · exact ⟨h_saved, trivial⟩
  refine h_saved.executeNext ⟨?_, ?_⟩ aborted _ _ ?_
  · rw [show ∀ (s : Store Json Args) id content calls,
        requestsSince (s.save id content none calls).log = requestsSince s.log from
      fun _ _ _ _ => rfl]
    rw [(requestsSince_planned fun e h_e => mem_plannedEntries h_e).1]
    rw [Store.save, stepsSinceUser_append _ rfl]
    exact h_requests
  · rw [← h_limit]
    exact (requestsSince_planned fun e h_e => mem_plannedEntries h_e).2
  · intro call h_call tool args h_target
    obtain ⟨h_mem, h_running⟩ := List.mem_filter.mp h_call
    have h_ok := (planAll_spec tools s.nextId messageId completion.toolCalls outcome).1
    exact (h_ok call h_mem).read (by simpa using h_running) tool args h_target

end Planning

/-! ## Decisions -/

section Decisions

variable {tools : String → Option (AssistantTool json Args)} {s : Store Json Args}

/-- A call is decided: it stops to be pending, and the decision is logged. -/
theorem StoreInv.recordDecided (h : StoreInv tools s) {call : StoredToolCall Json}
    (h_call : call ∈ s.calls) (h_pending : call.status = .pending) (approve : Bool)
    (maxSteps : Nat) (patch : StoredToolCall Json → StoredToolCall Json)
    (h_id : ∀ c, (patch c).id = c.id) (h_status : ∀ c, (patch c).status ≠ .pending) :
    StoreInv tools
      ((s.record (.decided call.id approve maxSteps)).updateToolCall call.id patch) := by
  have h_updated := h.updateToolCall call.id h_id h_status
  have h_waiting := h.waiting call h_call h_pending
  refine h_updated.record (e := .decided call.id approve maxSteps) ?_ ?_ ?_
  · intro b n h_old
    exact h_waiting.open_ _ h_old rfl
  · intro id h_eq
    rw [← Option.some.inj h_eq]
    exact h.idsLt call h_call
  · intro c h_c h_c_pending h_eq
    exact StoreInv.not_pending_updateToolCall _ patch h_status h_c h_c_pending (Option.some.inj h_eq).symm

theorem ready_decided (callId : Nat) (approve : Bool) (config : RunConfig) :
    Ready (s.record (.decided callId approve config.maxSteps)) config :=
  ⟨Nat.zero_le _, rfl⟩

theorem StoreInv.decide (h : StoreInv tools s) {call : StoredToolCall Json}
    (h_call : call ∈ s.calls) (h_pending : call.status = .pending) (approve : Bool)
    (config : RunConfig) :
    StepInv tools config
      ((s.record (.decided call.id approve config.maxSteps)).decide tools config
        (call.deserialize json) approve) := by
  have h_id : (call.deserialize json).id = call.id := rfl
  have h_ready := ready_decided (s := s) call.id approve config
  simp only [Store.decide]
  rw [h_id]
  split
  · -- declined, or no longer valid
    refine StoreInv.loop ?_ (h_ready.updateToolCall call.id _)
    refine h.recordDecided h_call h_pending approve config.maxSteps _ (fun _ => rfl) fun c => ?_
    show (if approve then ToolCallStatus.error else .rejected) ≠ .pending
    split
    · exact ToolCallStatus.noConfusion
    · exact ToolCallStatus.noConfusion
  · rename_i tool args h_target
    have h_approve : approve = true := by
      by_contra h_not
      rw [if_neg h_not] at h_target
      cases h_target
    rw [if_pos h_approve] at h_target
    obtain ⟨tool', h_tool', h_bind⟩ := Option.bind_eq_some_iff.mp h_target
    obtain ⟨tool'', args'', preview, h_tool'', h_shown, h_planned⟩ :=
      (h.waiting call h_call h_pending).shown
    have h_same : tool'' = tool' := by
      have h_name : tools call.name = some tool' := h_tool'
      rw [h_tool''] at h_name
      exact Option.some.inj h_name
    subst h_same
    -- the stored arguments give what was shown
    have h_parse : tool''.safeParse (call.deserialize json).args = .ok args'' := h_shown
    rw [h_parse] at h_bind
    obtain ⟨rfl, rfl⟩ := Prod.mk.inj (Option.some.inj h_bind)
    have h_decided := h.recordDecided h_call h_pending approve config.maxSteps
      (fun c => { c with status := .running }) (fun _ => rfl)
      fun _ => ToolCallStatus.noConfusion
    refine ⟨h_decided.record ?_ ?_ ?_, ?_⟩
    · cases h_kind : tool''.kind with
      | read => trivial
      | write =>
        refine ⟨⟨config.maxSteps, ?_⟩, ⟨preview, ?_⟩, ?_⟩
        · subst h_approve
          exact List.mem_cons_self
        · exact List.mem_cons_of_mem _ h_planned
        · intro name' args' h_old
          rcases List.mem_cons.mp h_old with h_eq | h_old
          · cases h_eq
          · exact (h.waiting call h_call h_pending).open_ _ h_old rfl
    · intro id h_settles
      have h_eq : id = call.id := by
        cases h_kind : tool''.kind with
        | read =>
          rw [h_kind] at h_settles
          cases h_settles
        | write =>
          rw [h_kind] at h_settles
          exact (Option.some.inj h_settles).symm
      rw [h_eq]
      exact h.idsLt call h_call
    · intro c h_c h_c_pending h_settles
      refine StoreInv.not_pending_updateToolCall (s := s) call.id
        (fun c => { c with status := .running }) (fun _ => ToolCallStatus.noConfusion)
        h_c h_c_pending ?_
      cases h_kind : tool''.kind with
      | read =>
        rw [h_kind] at h_settles
        cases h_settles
      | write =>
        rw [h_kind] at h_settles
        exact (Option.some.inj h_settles).symm
    · refine ⟨Nat.zero_le _, rfl⟩

end Decisions

/-! ## Conversations -/

/-- The stored messages, and at most one run, which the active map has. -/
structure ConversationInv (tools : String → Option (AssistantTool json Args))
    (c : Conversation json Args) : Prop where
  store : StoreInv tools c.store
  control : c.runs = [] ∨ ∃ run, c.runs = [run] ∧ c.active = some run.id ∧
    PhaseInv c.store run.config run.phase

namespace ConversationInv

variable {tools : String → Option (AssistantTool json Args)} {c c' : Conversation json Args}

theorem empty : ConversationInv tools ({} : Conversation json Args) := by
  refine ⟨⟨List.nodup_nil, ?_, ?_, ?_, ?_, ?_⟩, .inl rfl⟩
  · intro call h_call
    cases h_call
  · intro e h_e
    cases h_e
  · intro m h_m
    cases h_m
  · intro call h_call
    cases h_call
  · intro newer e older h_log
    exact absurd h_log (by simp)

/-- Without an entry in the active map nothing runs. -/
theorem no_runs (h : ConversationInv tools c) (h_active : ¬ c.active.isSome = true) :
    c.runs = [] := by
  rcases h.control with h_none | ⟨run, -, h_some, -⟩
  · exact h_none
  · rw [h_some] at h_active
    exact absurd rfl h_active

/-- A run starts when nothing runs. -/
theorem background (h_runs : c.runs = []) {config : RunConfig}
    {work : Store Json Args × Phase json Args} (h_work : StepInv tools config work) :
    ConversationInv tools (c.background config work) := by
  refine ⟨h_work.store, .inr ⟨⟨c.nextRun, config, false, work.2⟩, ?_, rfl, h_work.phase⟩⟩
  show c.runs ++ _ = _
  rw [h_runs, List.nil_append]

theorem send (h : ConversationInv tools c) {content : String} {config : RunConfig}
    (h_c' : c.send content config = some c') : ConversationInv tools c' := by
  simp only [Conversation.send] at h_c'
  split at h_c'
  · cases h_c'
  rename_i h_active
  split at h_c'
  · cases h_c'
  rename_i h_pending
  cases h_c'
  refine background (h.no_runs h_active) ?_
  rw [hasPending_list] at h_pending
  have h_quiet : c.store.Quiet := quiet_of_hasPending h.store.last (Bool.eq_false_iff.mpr h_pending)
  have h_raised := h.store.raiseId (Nat.le_succ c.store.nextId)
  have h_written := h_raised.append h_quiet ⟨c.store.nextId, .user, trim content, none, []⟩
    List.nodup_nil (fun call h_call => by cases h_call) (fun call h_call => by cases h_call)
  refine StoreInv.loop (h_written.record trivial ?_ ?_) ⟨Nat.zero_le _, rfl⟩
  · intro id h_id
    cases h_id
  · intro call _ _ h_id
    cases h_id

theorem confirm (h : ConversationInv tools c) {callId : Nat} {approve : Bool}
    {config : RunConfig} (h_c' : c.confirm tools callId approve config = some c') :
    ConversationInv tools c' := by
  simp only [Conversation.confirm] at h_c'
  split at h_c'
  · cases h_c'
  rename_i h_active
  split at h_c'
  · cases h_c'
  rename_i call h_find
  split at h_c'
  · cases h_c'
  rename_i h_pending
  cases h_c'
  obtain ⟨raw, h_raw, rfl⟩ := Option.map_eq_some_iff.mp h_find
  have h_id : raw.id = callId := by simpa using List.find?_some h_raw
  have h_call : raw ∈ c.store.calls := List.mem_of_find?_eq_some h_raw
  have h_raw_pending : raw.status = .pending := Decidable.not_not.mp h_pending
  refine background (h.no_runs h_active) ?_
  rw [← h_id]
  exact h.store.decide h_call h_raw_pending approve config

theorem stop (h : ConversationInv tools c) : ConversationInv tools c.stop := by
  refine ⟨h.store, ?_⟩
  rcases h.control with h_none | ⟨run, h_one, h_active, h_phase⟩
  · left
    show c.runs.map _ = []
    rw [h_none, List.map_nil]
  · right
    refine ⟨{ run with aborted := true }, ?_, h_active, h_phase⟩
    show c.runs.map _ = _
    rw [h_one, List.map_singleton, if_pos h_active]

theorem settle (h : ConversationInv tools c) {i : Nat} (h_c' : c.settle i = some c') :
    ConversationInv tools c' := by
  rw [Conversation.settle] at h_c'
  split at h_c'
  · rename_i id config aborted h_i
    cases h_c'
    refine ⟨h.store, .inl ?_⟩
    rcases h.control with h_none | ⟨run, h_one, -, -⟩
    · rw [h_none] at h_i
      cases h_i
    · rw [h_one] at h_i
      have h_zero : i = 0 := by
        have h_lt := (List.getElem?_eq_some_iff.mp h_i).1
        rw [List.length_singleton] at h_lt
        omega
      show c.runs.eraseIdx i = []
      rw [h_one, h_zero]
      rfl
  · cases h_c'

/-- What a run does when what it waits for comes. -/
theorem resume (h : StoreInv tools c.store) {run : Run json Args}
    (h_phase : PhaseInv c.store run.config run.phase) {e : Event}
    {r : Store Json Args × Phase json Args} (h_r : c.resume tools run e = some r) :
    StepInv tools run.config r := by
  cases e with
  | completed completion =>
    simp only [Conversation.resume] at h_r
    split at h_r
    · rename_i messageId h_eq
      cases h_r
      rw [h_eq] at h_phase
      exact ⟨h, h_phase⟩
    · cases h_r
  | completionFailed streamed error =>
    simp only [Conversation.resume] at h_r
    split at h_r
    · rename_i messageId h_eq
      cases h_r
      rw [h_eq] at h_phase
      exact h.completionFailed h_phase.1 run.aborted messageId streamed error
    · cases h_r
  | planned outcome =>
    simp only [Conversation.resume] at h_r
    split at h_r
    · rename_i messageId completion h_eq
      cases h_r
      rw [h_eq] at h_phase
      obtain ⟨h_quiet, h_requests, h_limit⟩ := h_phase
      exact h.plannedStep h_quiet h_requests h_limit run.aborted messageId completion outcome
    · cases h_r
  | executed result =>
    simp only [Conversation.resume] at h_r
    split at h_r
    · rename_i call rest pending h_eq
      cases h_r
      rw [h_eq] at h_phase
      exact (h.storeResult call.stored.id result).executeNext
        (h_phase.2.updateToolCall call.stored.id _) run.aborted pending rest h_phase.1
    · rename_i call h_eq
      cases h_r
      rw [h_eq] at h_phase
      exact (h.storeResult call.stored.id result).loop
        (Ready.updateToolCall h_phase call.stored.id _)
    · cases h_r
  | threw =>
    simp only [Conversation.resume] at h_r
    split at h_r
    · cases h_r
      exact ⟨h, trivial⟩
    · cases h_r
      exact ⟨h, trivial⟩
    · cases h_r
      exact ⟨h, trivial⟩
    · cases h_r
  | send content config => cases h_r
  | confirm callId approve config => cases h_r
  | stop => cases h_r
  | settle => cases h_r

/-- An event of a run. -/
theorem runStep (h : ConversationInv tools c) {i : Nat} {e : Event}
    (h_c' : (match c.runs[i]? with
      | none => none
      | some run =>
          (c.resume tools run e).map fun (store, phase) =>
            { c with store := store, runs := c.runs.set i { run with phase := phase } }) =
        some c') : ConversationInv tools c' := by
  split at h_c'
  · cases h_c'
  rename_i run h_i
  obtain ⟨r, h_r, rfl⟩ := Option.map_eq_some_iff.mp h_c'
  rcases h.control with h_none | ⟨run', h_one, h_active, h_phase⟩
  · rw [h_none] at h_i
    cases h_i
  · rw [h_one] at h_i
    have h_zero : i = 0 := by
      have h_lt := (List.getElem?_eq_some_iff.mp h_i).1
      rw [List.length_singleton] at h_lt
      omega
    subst h_zero
    cases h_i
    have h_step := resume h.store h_phase h_r
    refine ⟨h_step.store, .inr ⟨{ run with phase := r.2 }, ?_, h_active, h_step.phase⟩⟩
    show c.runs.set 0 _ = _
    rw [h_one]
    rfl

theorem step (h : ConversationInv tools c) {e : Nat × Event}
    (h_c' : c.step tools e = some c') : ConversationInv tools c' := by
  obtain ⟨i, e⟩ := e
  cases e with
  | send content config => exact h.send h_c'
  | confirm callId approve config => exact h.confirm h_c'
  | stop =>
    cases h_c'
    exact h.stop
  | settle => exact h.settle h_c'
  | completed completion => exact h.runStep h_c'
  | completionFailed streamed error => exact h.runStep h_c'
  | planned outcome => exact h.runStep h_c'
  | executed result => exact h.runStep h_c'
  | threw => exact h.runStep h_c'

end ConversationInv

theorem conversationInv_of_reachable {tools : String → Option (AssistantTool json Args)}
    {c : Conversation json Args} (h : (machine tools).Reachable c) : ConversationInv tools c := by
  refine Machine.Reachable.invariant ?_ ?_ h
  · rintro _ rfl
    exact .empty
  · exact fun c e c' h_inv h_step => h_inv.step h_step

/-! ## What holds in every reachable state -/

/-- The write execution of the call. -/
def LogEntry.isWriteOf (callId : Nat) : LogEntry Args → Bool
  | .executed id _ _ .write => id == callId
  | _ => false

/-- The approval of the call. -/
def LogEntry.approves (callId : Nat) : LogEntry Args → Bool
  | .decided id true _ => id == callId
  | _ => false

/-- The assistant changes nothing without approval. -/
structure ApprovedOnly (c : Conversation json Args) : Prop where
  /-- At most one run is active. -/
  oneRun : c.runs.length ≤ 1
  /-- A pending call is in the last message. -/
  pendingLast : ∀ m ∈ c.store.messages.dropLast, ∀ call ∈ m.toolCalls, call.status ≠ .pending
  /-- A write ran after the approval of that very call, with the tool and the arguments
      that were planned and shown. -/
  approved : ∀ newer older callId name args,
    c.store.log = newer ++ .executed callId name args .write :: older →
      (∃ n, .decided callId true n ∈ older) ∧ ∃ preview, .planned callId name args preview ∈ older
  /-- An approval causes at most one execution. -/
  once : ∀ callId, c.store.log.countP (LogEntry.isWriteOf callId) ≤
    c.store.log.countP (LogEntry.approves callId)
  /-- A declined call never runs. -/
  declined : ∀ callId n, .decided callId false n ∈ c.store.log →
    ∀ name args, .executed callId name args .write ∉ c.store.log
  /-- Completions between two messages or decisions of the user. -/
  steps : ∀ newer between start older maxSteps,
    c.store.log = newer ++ (between ++ start :: older) → start.starts = some maxSteps →
      (∀ e ∈ between, e.starts = none) → between.countP LogEntry.isRequest ≤ maxSteps
  /-- Every request answers its tool calls. -/
  answered : ∀ messages, .request messages ∈ c.store.log → Answered messages

namespace LogOk

variable {log : List (LogEntry Args)}

theorem of_mem (h : LogOk log) {e : LogEntry Args} (h_e : e ∈ log) :
    ∃ newer older, log = newer ++ e :: older ∧ EntryOk older e := by
  obtain ⟨newer, older, h_log⟩ := List.append_of_mem h_e
  exact ⟨newer, older, h_log, h newer e older h_log⟩

theorem tail {e : LogEntry Args} (h : LogOk (e :: log)) : LogOk log := by
  intro newer e' older h_log
  exact h (e :: newer) e' older (by rw [h_log, List.cons_append])

/-- A call is decided once. -/
theorem decided_once (h : LogOk log) {callId : Nat} {b b' : Bool} {n n' : Nat}
    (h_b : .decided callId b n ∈ log) (h_b' : .decided callId b' n' ∈ log) : b = b' := by
  induction log with
  | nil => cases h_b
  | cons e log ih =>
    have h_ok : EntryOk log e := h [] e log rfl
    rcases List.mem_cons.mp h_b with rfl | h_old
    · rcases List.mem_cons.mp h_b' with h_eq | h_old'
      · cases h_eq
        rfl
      · exact absurd h_old' (h_ok b' n')
    · rcases List.mem_cons.mp h_b' with rfl | h_old'
      · exact absurd h_old (h_ok b n)
      · exact ih h.tail h_old h_old'

theorem once (h : LogOk log) (callId : Nat) :
    log.countP (LogEntry.isWriteOf callId) ≤ log.countP (LogEntry.approves callId) := by
  induction log with
  | nil => exact Nat.le_refl _
  | cons e log ih =>
    have h_rest := ih h.tail
    have h_ok : EntryOk log e := h [] e log rfl
    rw [List.countP_cons, List.countP_cons]
    by_cases h_write : e.isWriteOf callId = true
    · -- the first execution, which follows an approval
      cases e with
      | executed id name args kind =>
        cases kind with
        | read => cases h_write
        | write =>
          have h_id : id = callId := by simpa [LogEntry.isWriteOf] using h_write
          subst h_id
          obtain ⟨⟨n, h_approved⟩, -, h_first⟩ := h_ok
          have h_none : log.countP (LogEntry.isWriteOf id) = 0 := by
            rw [List.countP_eq_zero]
            intro e' h_e' h_write'
            cases e' with
            | executed id' name' args' kind' =>
              cases kind' with
              | read => cases h_write'
              | write =>
                have h_id' : id' = id := by simpa [LogEntry.isWriteOf] using h_write'
                exact h_first name' args' (h_id' ▸ h_e')
            | _ => cases h_write'
          have h_pos : 0 < log.countP (LogEntry.approves id) :=
            List.countP_pos_iff.mpr ⟨_, h_approved, by simp [LogEntry.approves]⟩
          rw [h_none, if_pos h_write]
          omega
      | _ => cases h_write
    · rw [if_neg h_write]
      omega

end LogOk

/-- **The assistant changes nothing without approval**, in every run of a conversation. -/
theorem approvedOnly_of_reachable {tools : String → Option (AssistantTool json Args)}
    {c : Conversation json Args} (h : (machine tools).Reachable c) : ApprovedOnly c := by
  have h_inv := conversationInv_of_reachable h
  have h_log := h_inv.store.log
  refine ⟨?_, h_inv.store.last, ?_, h_log.once, ?_, ?_, ?_⟩
  · rcases h_inv.control with h_none | ⟨run, h_one, -⟩
    · rw [h_none]
      exact Nat.zero_le 1
    · rw [h_one]
      exact Nat.le_refl 1
  · intro newer older callId name args h_eq
    obtain ⟨h_approved, h_planned, -⟩ := h_log newer _ older h_eq
    exact ⟨h_approved, h_planned⟩
  · intro callId n h_declined name args h_executed
    obtain ⟨newer, older, h_eq, ⟨m, h_approved⟩, -⟩ := h_log.of_mem h_executed
    have h_mem : .decided callId true m ∈ c.store.log := by
      rw [h_eq]
      exact List.mem_append_right newer (List.mem_cons_of_mem _ h_approved)
    have h_same := h_log.decided_once h_declined h_mem
    cases h_same
  · intro newer between start older maxSteps h_eq h_start h_between
    exact h_log.steps newer h_eq h_start h_between
  · intro messages h_request
    obtain ⟨newer, older, -, h_answered, -⟩ := h_log.of_mem h_request
    exact h_answered

/-! ## One approved write -/

def opText : String := "\x7b\"text\":\"op steve\"\x7d"

/-- JSON values by their compact texts, as far as the conversation below has any. -/
def textJson : JsonApi String where
  parse text := if text = opText then some text else none
  stringify := id
  isObject raw := raw = opText || raw = "\x7b\x7d"
  empty := "\x7b\x7d"
  readBack := id

def writeTool : AssistantTool textJson String where
  kind := .write
  safeParse raw := if raw = opText then .ok "op steve" else .error "text: Required"
  object_only raw args h := by
    by_cases h_raw : raw = opText
    · simp [textJson, h_raw]
    · rw [if_neg h_raw] at h
      cases h
  stored _ _ h := h

def writeTools (name : String) : Option (AssistantTool textJson String) :=
  if name = "write" then some writeTool else none

/-- The model asks for one write, the user approves it, and the model answers. -/
def approvedWrite : List (Nat × Event) :=
  [(0, .send "hi" ⟨"sys", 8⟩), (0, .completed ⟨"", [⟨"p", "write", opText⟩]⟩),
   (0, .planned fun _ => ⟨none, .ok (.command "op steve")⟩), (0, .settle),
   (0, .confirm 2 true ⟨"sys", 8⟩), (0, .executed ⟨"written", false⟩),
   (0, .completed ⟨"ok", []⟩), (0, .planned fun _ => ⟨none, .error ""⟩), (0, .settle)]

theorem approvedOnly_approvedWrite :
    ∃ c, (machine writeTools).run {} approvedWrite = some c ∧
      c.store.log.countP (LogEntry.isWriteOf 2) = 1 ∧ ApprovedOnly c :=
  ⟨_, rfl, rfl, approvedOnly_of_reachable
    ((machine writeTools).reachable_of_run approvedWrite (.init rfl) rfl)⟩
end Kubek.Assistant
