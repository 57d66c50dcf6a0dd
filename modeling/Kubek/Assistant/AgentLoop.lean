/-
  Kubek.Assistant.AgentLoop

  One conversation with the agent loop, its runner and the requests of its owner
  (agent-loop.ts, agent-runner.service.ts, conversations.service.ts, tool-schema.ts).

  Code between two awaits is one step. The functions on `Store` are what a run does to the
  stored messages; `Phase` is where a run waits. The model, the tools, access checks and
  previews answer anything, at any time and in any order. Statements of the database
  succeed. Ids are drawn from a counter, and `log` records what happened; the code reads
  neither.
-/

import Kubek.Assistant.History
import Kubek.Lib.JsText
import Kubek.Lib.Machine

namespace Kubek.Assistant

open JsText Transition

/-! ## Tools -/

/-- The JSON values of the language, as far as calls use them. -/
structure JsonApi (Json : Type) where
  /-- `JSON.parse`, or none when it throws. -/
  parse : String → Option Json
  stringify : Json → String
  /-- Neither null nor an array nor a primitive. -/
  isObject : Json → Bool
  /-- `{}`. -/
  empty : Json
  /-- A value as it comes back from the column it was written to. -/
  readBack : Json → Json

variable {Json Args : Type}

/-- A tool of the registry. Its schema is a `z.object`: it accepts objects only, and reads
    what it accepted as the same arguments again when it comes back from the database. -/
structure AssistantTool (json : JsonApi Json) (Args : Type) where
  kind : AssistantToolKind
  /-- `args.safeParse`, with the issues as one text. -/
  safeParse : Json → Except String Args
  object_only : ∀ raw args, safeParse raw = .ok args → json.isObject raw = true
  stored : ∀ raw args, safeParse raw = .ok args → safeParse (json.readBack raw) = .ok args

/-- Tool call as it arrives from the provider, arguments still raw. -/
structure StreamedToolCall where
  id : String
  name : String
  arguments : String

structure ChatCompletion where
  content : String
  toolCalls : List StreamedToolCall

structure ToolResult where
  content : String
  isError : Bool

/-- `ParsedArgs`, with the raw object. -/
def parseToolArgs {json : JsonApi Json} (tool : AssistantTool json Args) (rawText : String) :
    Except String Args × Json :=
  match if trim rawText = "" then some json.empty else json.parse rawText with
  | none => (.error "Arguments are not valid JSON", json.empty)
  | some raw =>
      let rawObject := if json.isObject raw then raw else json.empty
      match tool.safeParse raw with
      | .ok args => (.ok args, rawObject)
      | .error issues => (.error ("Invalid arguments: " ++ issues), rawObject)

/-- What access checks and the preview say about a call while it is planned. -/
structure PlanOutcome where
  denied : Option String
  preview : Except String AssistantToolPreview

/-- `PlannedCall`: the tool and the parsed arguments are there for a call that may run. -/
structure PlannedCall (json : JsonApi Json) (Args : Type) where
  stored : StoredToolCall Json
  target : Option (AssistantTool json Args × Args)

/-! ## State -/

inductive LogEntry (Args : Type)
  /-- The user wrote, and a run with this step limit began. -/
  | user (maxSteps : Nat)
  /-- The user decided a call, and a run with this step limit began. -/
  | decided (callId : Nat) (approve : Bool) (maxSteps : Nat)
  /-- A write call was planned and shown. -/
  | planned (callId : Nat) (name : String) (args : Args) (preview : AssistantToolPreview)
  /-- The run of a tool began. -/
  | executed (callId : Nat) (name : String) (args : Args) (kind : AssistantToolKind)
  /-- A completion was asked for. -/
  | request (messages : List ChatMessage)

structure Store (Json Args : Type) where
  messages : List (StoredMessage Json) := []
  nextId : Nat := 0
  /-- Newest first. -/
  log : List (LogEntry Args) := []

/-- Where a run waits. -/
inductive Phase (json : JsonApi Json) (Args : Type)
  /-- For the completion of the message. -/
  | completing (messageId : Nat)
  /-- For the plans of the calls. -/
  | planning (messageId : Nat) (completion : ChatCompletion)
  /-- For a read call; `rest` follow, and `pending` says whether a call waits for the user. -/
  | executing (call : PlannedCall json Args) (rest : List (PlannedCall json Args))
      (pending : Bool)
  /-- For the approved call. -/
  | deciding (call : PlannedCall json Args)
  /-- The work settled; its entry in the active map is still there. -/
  | settled

/-- What a run was started with. -/
structure RunConfig where
  systemPrompt : String
  maxSteps : Nat

structure Run (json : JsonApi Json) (Args : Type) where
  id : Nat
  config : RunConfig
  aborted : Bool
  phase : Phase json Args

structure Conversation (json : JsonApi Json) (Args : Type) where
  store : Store Json Args := {}
  /-- The entry of the active map. -/
  active : Option Nat := none
  runs : List (Run json Args) := []
  nextRun : Nat := 0

/-! ## What a run does to the stored messages -/

def stepLimit : String := "Step limit reached, send a message to continue"

def stopped : String := "Stopped"

variable (json : JsonApi Json)

/-- `deserializeCall`. -/
def StoredToolCall.deserialize (call : StoredToolCall Json) : StoredToolCall Json :=
  { call with args := json.readBack call.args }

namespace Store

variable (s : Store Json Args)

/-- `list` of the messages repository. -/
def list : List (StoredMessage Json) :=
  s.messages.map fun m => { m with toolCalls := m.toolCalls.map (·.deserialize json) }

/-- `findToolCall`. -/
def findToolCall (callId : Nat) : Option (StoredToolCall Json) :=
  ((s.messages.flatMap (·.toolCalls)).find? (·.id = callId)).map (·.deserialize json)

/-- `insert` of an assistant message under a given id. -/
def save (id : Nat) (content : String) (error : Option String)
    (toolCalls : List (StoredToolCall Json)) : Store Json Args :=
  { s with messages := s.messages ++ [⟨id, .assistant, content, error, toolCalls⟩] }

/-- `updateToolCall`. -/
def updateToolCall (callId : Nat) (patch : StoredToolCall Json → StoredToolCall Json) :
    Store Json Args :=
  { s with
    messages := s.messages.map fun m =>
      { m with toolCalls := m.toolCalls.map fun c => if c.id = callId then patch c else c } }

def record (entry : LogEntry Args) : Store Json Args := { s with log := entry :: s.log }

/-- `run` from the top of its loop to its next await. -/
def loop (config : RunConfig) : Store Json Args × Phase json Args :=
  let history := s.list json
  if hasPending history then (s, .settled)
  else if stepsSinceUser history ≥ config.maxSteps then
    ({ s with nextId := s.nextId + 1 }.save s.nextId "" (some stepLimit) [], .settled)
  else
    ({ s with nextId := s.nextId + 1 }.record
        (.request (.system config.systemPrompt :: buildHistory json.stringify history)),
      .completing s.nextId)

/-- The failure of a completion. -/
def completionFailed (aborted : Bool) (messageId : Nat) (streamed error : String) :
    Store Json Args × Phase json Args :=
  (s.save messageId streamed (some (if aborted then stopped else error)) [], .settled)

end Store

section Registry

variable {json}
variable (tools : String → Option (AssistantTool json Args))

/-- `plan`: validates a call and decides whether it runs now or waits for the user. -/
def plan (id messageId : Nat) (call : StreamedToolCall) (outcome : PlanOutcome) :
    PlannedCall json Args :=
  let stored (args : Json) : StoredToolCall Json :=
    { id, messageId, name := call.name, args, status := .error, result := none, preview := none }
  match tools call.name with
  | none =>
      ⟨{ stored json.empty with result := some ("Unknown tool " ++ call.name) }, none⟩
  | some tool =>
      match parseToolArgs tool call.arguments with
      | (.error error, raw) => ⟨{ stored raw with result := some error }, none⟩
      | (.ok args, raw) =>
          match outcome.denied with
          | some denied => ⟨{ stored raw with result := some denied }, none⟩
          | none =>
              if tool.kind = .read then
                ⟨{ stored raw with status := .running }, some (tool, args)⟩
              else
                match outcome.preview with
                | .ok preview =>
                    ⟨{ stored raw with status := .pending, preview := some preview },
                      some (tool, args)⟩
                | .error error => ⟨{ stored raw with result := some error }, none⟩

/-- All calls of a completion, under the ids from `id` on. -/
def planAll (id messageId : Nat) :
    List StreamedToolCall → (Nat → PlanOutcome) → List (PlannedCall json Args)
  | [], _ => []
  | call :: calls, outcome =>
      plan tools id messageId call (outcome 0) ::
        planAll (id + 1) messageId calls fun i => outcome (i + 1)

/-- What is logged of a planned call that waits for the user. -/
def plannedEntry (call : PlannedCall json Args) : Option (LogEntry Args) :=
  match call.target, call.stored.preview with
  | some (_, args), some preview =>
      if call.stored.status = .pending then
        some (.planned call.stored.id call.stored.name args preview)
      else none
  | _, _ => none

namespace Store

variable (s : Store Json Args)

/-- After the last execution of a step. -/
def afterExecutions (config : RunConfig) (aborted pending : Bool) :
    Store Json Args × Phase json Args :=
  if aborted then (s, .settled) else if pending then (s, .settled) else s.loop json config

/-- The next read call of a step, up to its await. -/
def executeNext (config : RunConfig) (aborted pending : Bool) :
    List (PlannedCall json Args) → Store Json Args × Phase json Args
  | [] => s.afterExecutions config aborted pending
  | call :: rest =>
      match call.target with
      | none => executeNext config aborted pending rest
      | some (tool, args) =>
          (s.record (.executed call.stored.id call.stored.name args tool.kind),
            .executing call rest pending)

/-- The rest of a step once its calls are planned, up to its next await. -/
def plannedStep (config : RunConfig) (aborted : Bool) (messageId : Nat)
    (completion : ChatCompletion) (outcome : Nat → PlanOutcome) :
    Store Json Args × Phase json Args :=
  let planned := planAll tools s.nextId messageId completion.toolCalls outcome
  let saved : Store Json Args :=
    { s with
      nextId := s.nextId + planned.length
      log := planned.reverse.filterMap plannedEntry ++ s.log }.save messageId completion.content
        none (planned.map PlannedCall.stored)
  if planned.isEmpty then (saved, .settled)
  else
    saved.executeNext config aborted (planned.any (·.stored.status = .pending))
      (planned.filter (·.stored.status = .running))

/-- The result of an execution is stored. -/
def storeResult (callId : Nat) (result : ToolResult) : Store Json Args :=
  s.updateToolCall callId fun c =>
    { c with
      status := if result.isError then .error else .done
      result := some result.content }

/-- `decide`, up to its await or, when nothing is to run, up to that of the loop. -/
def decide (config : RunConfig) (call : StoredToolCall Json) (approve : Bool) :
    Store Json Args × Phase json Args :=
  let target : Option (AssistantTool json Args × Args) :=
    (tools call.name).bind fun tool =>
      match tool.safeParse call.args with
      | .ok args => some (tool, args)
      | .error _ => none
  match if approve then target else none with
  | none =>
      (s.updateToolCall call.id fun c =>
        { c with
          status := if approve then .error else .rejected
          result := some (if approve then "The call is no longer valid" else declined) }).loop
        json config
  | some (tool, args) =>
      let running := { call with status := ToolCallStatus.running }
      ((s.updateToolCall call.id fun c => { c with status := .running }).record
          (.executed call.id call.name args tool.kind),
        .deciding ⟨running, some (tool, args)⟩)

end Store

end Registry

/-! ## Steps -/

inductive Event
  /-- `send` of a message that passes the checks outside the conversation. -/
  | send (content : String) (config : RunConfig)
  | confirm (callId : Nat) (approve : Bool) (config : RunConfig)
  | stop
  | completed (completion : ChatCompletion)
  /-- The completion failed after some text. -/
  | completionFailed (streamed error : String)
  | planned (outcome : Nat → PlanOutcome)
  /-- A tool answered. -/
  | executed (result : ToolResult)
  /-- Planning or running a call threw, and the run with it. -/
  | threw
  /-- The `finally` of the work. -/
  | settle

namespace Conversation

variable {json}
variable (tools : String → Option (AssistantTool json Args)) (c : Conversation json Args)

/-- `background`: the run that begins with what `work` does up to its first await. -/
def background (config : RunConfig) (work : Store Json Args × Phase json Args) :
    Conversation json Args :=
  { store := work.1
    active := some c.nextRun
    runs := c.runs ++ [⟨c.nextRun, config, false, work.2⟩]
    nextRun := c.nextRun + 1 }

/-- `send` of conversations.service.ts, from its checks on. -/
def send (content : String) (config : RunConfig) : Option (Conversation json Args) :=
  if c.active.isSome then none
  else if hasPending (c.store.list json) then none
  else
    let written : Store Json Args :=
      { c.store with
        messages := c.store.messages ++ [⟨c.store.nextId, .user, trim content, none, []⟩]
        nextId := c.store.nextId + 1 }
    some (c.background config ((written.record (.user config.maxSteps)).loop json config))

/-- `confirm` of conversations.service.ts. -/
def confirm (callId : Nat) (approve : Bool) (config : RunConfig) :
    Option (Conversation json Args) :=
  if c.active.isSome then none
  else
    match c.store.findToolCall json callId with
    | none => none
    | some call =>
        if call.status ≠ .pending then none
        else
          some (c.background config
            ((c.store.record (.decided callId approve config.maxSteps)).decide tools config call
              approve))

/-- `stop`. -/
def stop : Conversation json Args :=
  { c with runs := c.runs.map fun run =>
      if c.active = some run.id then { run with aborted := true } else run }

/-- What run number `i` does next when what it waits for comes. -/
def resume (run : Run json Args) : Event → Option (Store Json Args × Phase json Args)
  | .completed completion =>
      match run.phase with
      | .completing messageId => some (c.store, .planning messageId completion)
      | _ => none
  | .completionFailed streamed error =>
      match run.phase with
      | .completing messageId =>
          some (c.store.completionFailed json run.aborted messageId streamed error)
      | _ => none
  | .planned outcome =>
      match run.phase with
      | .planning messageId completion =>
          some (c.store.plannedStep tools run.config run.aborted messageId completion outcome)
      | _ => none
  | .executed result =>
      match run.phase with
      | .executing call rest pending =>
          some ((c.store.storeResult call.stored.id result).executeNext run.config run.aborted
            pending rest)
      | .deciding call =>
          some ((c.store.storeResult call.stored.id result).loop json run.config)
      | _ => none
  | .threw =>
      match run.phase with
      | .planning _ _ | .executing _ _ _ | .deciding _ => some (c.store, .settled)
      | _ => none
  | _ => none

/-- The `finally` of run number `i`. -/
def settle (i : Nat) : Option (Conversation json Args) :=
  match c.runs[i]? with
  | some ⟨id, _, _, .settled⟩ =>
      some { c with
        active := if c.active = some id then none else c.active
        runs := c.runs.eraseIdx i }
  | _ => none

/-- One step; events of a run come with its number. -/
def step (c : Conversation json Args) : Nat × Event → Option (Conversation json Args)
  | (_, .send content config) => c.send content config
  | (_, .confirm callId approve config) => c.confirm tools callId approve config
  | (_, .stop) => some c.stop
  | (i, .settle) => c.settle i
  | (i, e) =>
      match c.runs[i]? with
      | none => none
      | some run =>
          (c.resume tools run e).map fun (store, phase) =>
            { c with store := store, runs := c.runs.set i { run with phase := phase } }

end Conversation

/-- A new conversation. -/
def machine {json : JsonApi Json} (tools : String → Option (AssistantTool json Args)) :
    Machine (Conversation json Args) (Nat × Event) where
  init c := c = {}
  step := Conversation.step tools

end Kubek.Assistant
