/-
  Kubek.Assistant.FilesTools

  The `write_file` tool: planned once for the preview and once more when it runs
  (files.tools.ts, file-edits.ts, redact.ts, and `readFile` and `writeFile` of
  file-manager.service.ts).

  Texts are lists of UTF-16 code units and files lists of bytes. Code between two awaits
  is one step; the files of the server may change between any two steps. A stored call
  keeps its arguments, and it runs at most once and only when it was approved
  (`approvedOnly_of_reachable` of the conversation), so a call goes through the phases
  below in one direction.
-/

import Kubek.Lib.JsText
import Kubek.Lib.Machine
import Kubek.Lib.TextSearch

namespace Kubek.Assistant

open JsText TextSearch Transition

/-! ## Edits -/

/-- Code units. -/
abbrev Text := List UInt16

abbrev Bytes := List UInt8

/-- A text without characters beyond the basic plane, as code units. -/
def unitsOf (s : String) : Text := s.toList.map fun c => c.toNat.toUInt16

/-- `FileEdit`. -/
structure FileEdit where
  find : Text
  replace : Text
  deriving DecidableEq, Repr

/-- `applyEdits` from edit number `i` on: edits in order, each find must match exactly once. -/
def applyEditsFrom (i : Nat) (text : Text) : List FileEdit → Except String Text
  | [] => .ok text
  | edit :: edits =>
      match indexOf edit.find text with
      | none => .error ("Edit " ++ toString (i + 1) ++ ": text to find is not in the file")
      | some first =>
          match indexOf edit.find (text.drop (first + 1)) with
          | some _ =>
              .error ("Edit " ++ toString (i + 1) ++
                ": text to find matches more than once, add surrounding lines")
          | none =>
              applyEditsFrom (i + 1)
                (text.take first ++ edit.replace ++ text.drop (first + edit.find.length)) edits

def applyEdits (source : Text) (edits : List FileEdit) : Except String Text :=
  applyEditsFrom 0 source edits

/-- What edits mean: each replaces the only occurrence of its text. -/
inductive Edited : Text → List FileEdit → Text → Prop
  | nil (source : Text) : Edited source [] source
  | cons {source pre post result : Text} {edit : FileEdit} {edits : List FileEdit}
      (once : OccursOnce edit.find source pre post)
      (rest : Edited (pre ++ edit.replace ++ post) edits result) :
      Edited source (edit :: edits) result

theorem edited_of_applyEditsFrom {edits : List FileEdit} {i : Nat} {text result : Text}
    (h : applyEditsFrom i text edits = .ok result) : Edited text edits result := by
  induction edits generalizing i text with
  | nil =>
    rw [applyEditsFrom] at h
    cases h
    exact .nil _
  | cons edit edits ih =>
    rw [applyEditsFrom] at h
    split at h
    · cases h
    rename_i first h_first
    split at h
    · cases h
    rename_i h_second
    exact .cons (occursOnce_of_indexOf h_first h_second) (ih h)

/-! ## Plans -/

def redacted : Text := unitsOf "[redacted]"

/-- `containsRedaction`. -/
def containsRedaction (value : Text) : Bool := includes redacted value

/-- `looksBinary`. -/
def looksBinary (buffer : Bytes) : Bool := (buffer.take 8000).contains 0

/-- `isSecretFile`: files that hold nothing but a secret. -/
def isSecretFile (path : String) : Bool :=
  let name := (trimChars path.toList).map Char.toLower
  let secret := "forwarding.secret".toList
  name = secret || ("/".toList ++ secret).isSuffixOf name ||
    ("\\".toList ++ secret).isSuffixOf name || ".pem".toList.isSuffixOf name ||
      ".key".toList.isSuffixOf name

/-- Either the whole new content or edits. -/
inductive FileChange
  | content (content : Text)
  | edits (edits : List FileEdit)

/-- The new text of the file. -/
def FileChange.after (before : Text) : FileChange → Except String Text
  | .content text => .ok text
  | .edits list => applyEdits before list

structure WriteArgs where
  serverId : String
  path : String
  change : FileChange

/-- The diff preview. -/
structure DiffPreview where
  path : String
  before : Text
  after : Text
  created : Bool
  deriving DecidableEq, Repr

def secretFile : String := "This file holds a secret and is hidden from the assistant"

def redactionError : String :=
  "The new content contains a [redacted] placeholder, use edits that leave secret lines untouched"

/-- What `plan` makes of the current text of the file. -/
def planOf (args : WriteArgs) (before : Option Text) : Except String DiffPreview :=
  match args.change.after (before.getD []) with
  | .error error => .error error
  | .ok after =>
      if containsRedaction after && !containsRedaction (before.getD []) then
        .error redactionError
      else .ok ⟨args.path, before.getD [], after, before.isNone⟩

/-- A plan shows the text it was made from and the text the call makes of it. -/
theorem planOf_eq_ok {args : WriteArgs} {before : Option Text} {plan : DiffPreview}
    (h : planOf args before = .ok plan) :
    plan.before = before.getD [] ∧ args.change.after plan.before = .ok plan.after := by
  rw [planOf] at h
  split at h
  · cases h
  rename_i after h_after
  split at h
  · cases h
  · cases h
    exact ⟨rfl, h_after⟩

/-! ## Calls -/

/-- How far `plan` is with the file. -/
inductive Reading
  /-- Before the check that the file is there. -/
  | looking
  /-- Before its bytes are read. -/
  | opening
  deriving DecidableEq, Repr

inductive CallPhase
  | previewing (reading : Reading)
  /-- The preview is stored and shown. -/
  | pending (preview : DiffPreview)
  | running (preview : DiffPreview) (reading : Reading)
  /-- Planned again, and about to write. -/
  | writing (preview plan : DiffPreview)
  /-- What was over-written, if there was a file. -/
  | written (preview plan : DiffPreview) (overwritten : Option Bytes)
  | failed

structure WriteCall where
  args : WriteArgs
  phase : CallPhase

/-- Files of all servers by their place. -/
structure Files (P : Type) where
  disk : P → Option Bytes
  calls : List WriteCall := []

inductive FileEvent (P : Type)
  /-- Another user, the game server or another tool changes a file. -/
  | touch (place : P) (content : Option Bytes)
  /-- The model asks for a call. -/
  | call (args : WriteArgs)
  /-- `plan` of call `k` goes on. -/
  | read (k : Nat)
  | approve (k : Nat)
  /-- Call `k` is declined, or a check of the file manager or the disk refuses it. -/
  | fail (k : Nat)
  | write (k : Nat)

section Machine

variable {P : Type} [DecidableEq P]

-- `getSafeServerPath` with the server and the path; none when it throws
variable (place : String → String → Option P)
-- UTF-8, with replacement characters for what is not text
variable (decode : Bytes → Text) (encode : Text → Bytes)

namespace Files

variable (f : Files P)

def setPhase (k : Nat) (call : WriteCall) (phase : CallPhase) : Files P :=
  { f with calls := f.calls.set k { call with phase := phase } }

/-- `plan` begins: secret files are refused. -/
def begin_ (args : WriteArgs) (next : Reading → CallPhase) : CallPhase :=
  if isSecretFile args.path then .failed else next .looking

/-- A plan came out. -/
def planned (plan : Except String DiffPreview) (next : DiffPreview → CallPhase) : CallPhase :=
  match plan with
  | .error _ => .failed
  | .ok preview => next preview

/-- The next step of `plan`: a file that is not there reads as absent, one that is gone
    in between as an error. -/
def readStep (args : WriteArgs) (reading : Reading) (again : Reading → CallPhase)
    (next : DiffPreview → CallPhase) : CallPhase :=
  match place args.serverId args.path with
  | none => .failed
  | some p =>
      match reading, f.disk p with
      | .looking, none => planned (planOf args none) next
      | .looking, some _ => again .opening
      | .opening, none => .failed
      | .opening, some buffer =>
          if looksBinary buffer then .failed
          else planned (planOf args (some (decode buffer))) next

/-- `read` of call `k`. -/
def read (k : Nat) : Option (Files P) :=
  match f.calls[k]? with
  | none => none
  | some call =>
      match call.phase with
      | .previewing reading =>
          some (f.setPhase k call
            (f.readStep place decode call.args reading .previewing .pending))
      | .running preview reading =>
          some (f.setPhase k call
            (f.readStep place decode call.args reading (.running preview) (.writing preview)))
      | _ => none

def approve (k : Nat) : Option (Files P) :=
  match f.calls[k]? with
  | some ⟨args, .pending preview⟩ =>
      some (f.setPhase k ⟨args, .pending preview⟩ (begin_ args (.running preview)))
  | _ => none

def fail (k : Nat) : Option (Files P) :=
  match f.calls[k]? with
  | none => none
  | some call =>
      match call.phase with
      | .written _ _ _ | .failed => none
      | _ => some (f.setPhase k call .failed)

/-- `writeFile` of call `k`. -/
def write (k : Nat) : Option (Files P) :=
  match f.calls[k]? with
  | some ⟨args, .writing preview plan⟩ =>
      match place args.serverId args.path with
      | none => none
      | some p =>
          some { f.setPhase k ⟨args, .writing preview plan⟩
              (.written preview plan (f.disk p)) with
            disk := Function.update f.disk p (some (encode plan.after)) }
  | _ => none

def step : FileEvent P → Option (Files P)
  | .touch p content => some { f with disk := Function.update f.disk p content }
  | .call args =>
      some { f with calls := f.calls ++ [⟨args, begin_ args .previewing⟩] }
  | .read k => f.read place decode k
  | .approve k => f.approve k
  | .fail k => f.fail k
  | .write k => f.write place encode k

end Files

/-- Any files, and no calls. -/
def filesMachine : Machine (Files P) (FileEvent P) where
  init f := f.calls = []
  step := Files.step place decode encode

end Machine

end Kubek.Assistant
