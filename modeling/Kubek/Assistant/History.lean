/-
  Kubek.Assistant.History

  Stored conversations and the provider messages rebuilt from them (history.ts,
  messages.repository.ts, llm.types.ts).

  A request is well formed for a provider when every tool call of an assistant message is
  answered by exactly one tool message before any other message comes (`Answered`).
  `answered_buildHistory` says that a rebuilt history always is, as long as no message
  has two calls of one id.
-/

import Mathlib.Data.List.Nodup

namespace Kubek.Assistant

/-! ## Stored messages -/

inductive AssistantToolKind
  | read
  | write
  deriving DecidableEq, Repr

inductive ToolCallStatus
  | pending
  | running
  | done
  | error
  | rejected
  deriving DecidableEq, Repr

inductive AssistantMessageRole
  | user
  | assistant
  deriving DecidableEq, Repr

/-- `AssistantPropertyChange`. -/
structure AssistantPropertyChange where
  key : String
  before : Option String
  after : String
  deriving DecidableEq, Repr

/-- What the confirmation card shows before a write tool runs. -/
inductive AssistantToolPreview
  | diff (path before after : String) (created : Bool)
  | command (command : String)
  | properties (changes : List AssistantPropertyChange)
  | summary (title : String) (lines : List String)
  deriving DecidableEq, Repr

structure StoredToolCall (Json : Type) where
  id : Nat
  messageId : Nat
  name : String
  args : Json
  status : ToolCallStatus
  result : Option String
  preview : Option AssistantToolPreview

structure StoredMessage (Json : Type) where
  id : Nat
  role : AssistantMessageRole
  content : String
  error : Option String
  toolCalls : List (StoredToolCall Json)

/-! ## Provider messages -/

structure ChatToolCall where
  id : Nat
  name : String
  arguments : String
  deriving DecidableEq, Repr

inductive ChatMessage
  | system (content : String)
  | user (content : String)
  | assistant (content : Option String) (toolCalls : Option (List ChatToolCall))
  | tool (toolCallId : Nat) (content : String)
  deriving DecidableEq, Repr

def ChatMessage.isTool : ChatMessage → Bool
  | .tool _ _ => true
  | _ => false

/-- The message is the result of the call. -/
def ChatMessage.answers (callId : Nat) : ChatMessage → Bool
  | .tool id _ => id == callId
  | _ => false

variable {Json : Type}

def declined : String := "The user declined this action"

/-- `toolResultText`: what the model reads back as the result of a call. -/
def toolResultText (call : StoredToolCall Json) : String :=
  match call.status with
  | .done => call.result.getD ""
  | .rejected => call.result.getD declined
  | .error => "Error: " ++ call.result.getD "unknown error"
  | .pending | .running => "Error: the call did not finish"

/-- The result message of a call. -/
def toolMessage (call : StoredToolCall Json) : ChatMessage := .tool call.id (toolResultText call)

/-- What `buildHistory` pushes for one message. -/
def messageHistory (stringify : Json → String) (message : StoredMessage Json) :
    List ChatMessage :=
  if message.role = .user then [.user message.content]
  else if message.content = "" && message.toolCalls.isEmpty then []
  else
    .assistant (if message.content = "" then none else some message.content)
        (if message.toolCalls.isEmpty then none
          else some (message.toolCalls.map fun call => ⟨call.id, call.name, stringify call.args⟩)) ::
      message.toolCalls.map toolMessage

/-- `buildHistory`: provider messages rebuilt from the stored conversation. -/
def buildHistory (stringify : Json → String) (messages : List (StoredMessage Json)) :
    List ChatMessage :=
  messages.flatMap (messageHistory stringify)

/-- `stepsSinceUser`: model turns since the user last wrote. -/
def stepsSinceUser (messages : List (StoredMessage Json)) : Nat :=
  (messages.reverse.takeWhile fun m => m.role ≠ .user).length

/-- `hasPending`: a call of the last message waits for the user. -/
def hasPending (messages : List (StoredMessage Json)) : Bool :=
  messages.getLast?.any fun m => m.toolCalls.any fun call => call.status = .pending

/-! ## Answered calls -/

/-- Each tool call of an assistant message is followed by exactly one tool message with its
    id before any other message. -/
def Answered : List ChatMessage → Prop
  | [] => True
  | .assistant _ (some calls) :: rest =>
      (∀ call ∈ calls, ((rest.takeWhile ChatMessage.isTool).filter
        (ChatMessage.answers call.id)).length = 1) ∧ Answered rest
  | _ :: rest => Answered rest

theorem isTool_toolMessage (call : StoredToolCall Json) : (toolMessage call).isTool = true := rfl

/-- Tool messages need no answer. -/
theorem answered_toolMessages (calls : List (StoredToolCall Json)) {rest : List ChatMessage}
    (h : Answered rest) : Answered (calls.map toolMessage ++ rest) := by
  induction calls with
  | nil => exact h
  | cons call calls ih => exact ih

/-- A history does not begin with a tool message. -/
theorem takeWhile_buildHistory (stringify : Json → String)
    (messages : List (StoredMessage Json)) :
    (buildHistory stringify messages).takeWhile ChatMessage.isTool = [] := by
  induction messages with
  | nil => rfl
  | cons message messages ih =>
    rw [buildHistory, List.flatMap_cons, messageHistory]
    split
    · rfl
    · split
      · exact ih
      · rfl

/-- Distinct calls have one result each. -/
theorem length_filter_answers (calls : List (StoredToolCall Json))
    (h : (calls.map StoredToolCall.id).Nodup) {call : StoredToolCall Json} (h_call : call ∈ calls) :
    ((calls.map toolMessage).filter (ChatMessage.answers call.id)).length = 1 := by
  induction calls with
  | nil => cases h_call
  | cons first calls ih =>
    obtain ⟨h_first, h_rest⟩ := List.nodup_cons.mp h
    rw [List.map_cons, List.filter_cons]
    rcases List.mem_cons.mp h_call with rfl | h_mem
    · -- no later call has the id of the first one
      have h_none : (calls.map toolMessage).filter (ChatMessage.answers call.id) = [] := by
        rw [List.filter_eq_nil_iff]
        intro message h_message h_answers
        obtain ⟨other, h_other, rfl⟩ := List.mem_map.mp h_message
        have h_id : other.id = call.id := by simpa [toolMessage, ChatMessage.answers] using h_answers
        exact h_first (List.mem_map.mpr ⟨other, h_other, h_id⟩)
      rw [if_pos (by simp [toolMessage, ChatMessage.answers]), h_none, List.length_singleton]
    · have h_ne : first.id ≠ call.id := fun h_id =>
        h_first (List.mem_map.mpr ⟨call, h_mem, h_id.symm⟩)
      rw [if_neg (by simpa [toolMessage, ChatMessage.answers] using h_ne)]
      exact ih h_rest h_mem

/-- **A rebuilt history answers every call.** -/
theorem answered_buildHistory (stringify : Json → String) (messages : List (StoredMessage Json))
    (h : ∀ message ∈ messages, (message.toolCalls.map StoredToolCall.id).Nodup) :
    Answered (buildHistory stringify messages) := by
  induction messages with
  | nil => trivial
  | cons message messages ih =>
    have h_rest := ih fun m h_m => h m (List.mem_cons_of_mem _ h_m)
    have h_ids := h message List.mem_cons_self
    rw [buildHistory, List.flatMap_cons, messageHistory]
    split
    · exact h_rest
    split
    · exact h_rest
    rw [List.cons_append]
    have h_tail : Answered (message.toolCalls.map toolMessage ++ buildHistory stringify messages) :=
      answered_toolMessages message.toolCalls h_rest
    by_cases h_empty : message.toolCalls.isEmpty = true
    · rw [if_pos h_empty]
      exact h_tail
    · rw [if_neg h_empty]
      refine ⟨fun call h_call => ?_, h_tail⟩
      obtain ⟨stored, h_stored, rfl⟩ := List.mem_map.mp h_call
      have h_take : ((message.toolCalls.map toolMessage ++
          messages.flatMap (messageHistory stringify)).takeWhile ChatMessage.isTool) =
            message.toolCalls.map toolMessage := by
        rw [List.takeWhile_append_of_pos]
        · have h_none := takeWhile_buildHistory stringify messages
          rw [buildHistory] at h_none
          rw [h_none, List.append_nil]
        · intro m h_m
          obtain ⟨c, -, rfl⟩ := List.mem_map.mp h_m
          exact isTool_toolMessage c
      rw [h_take]
      exact length_filter_answers message.toolCalls h_ids h_stored

end Kubek.Assistant
