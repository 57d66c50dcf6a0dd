/-
  Kubek.Assistant.ApprovedChange

  What an approved `write_file` call writes (`approvedChange_of_reachable`).

  A call is planned again when it runs. It writes the plan of the text that its execution
  read, which is the text that was shown only when the file is as it was shown, or when
  the call has the whole new content; a file that changed in between is over-written
  (`changed_file_changes_write`).
-/

import Kubek.Assistant.FilesTools

namespace Kubek.Assistant

open TextSearch Transition

/-! ## What an approved call writes -/

/-- How the plan a call writes relates to the preview its user approved. -/
structure AsApproved (args : WriteArgs) (preview plan : DiffPreview) : Prop where
  /-- Whole new content is written as it was shown. -/
  whole : ∀ content, args.change = .content content →
    plan.after = content ∧ preview.after = content
  /-- Edits are applied to the text read last, where each matches exactly once. -/
  edited : ∀ edits, args.change = .edits edits → Edited plan.before edits plan.after
  /-- From the text that was shown comes the text that was shown. -/
  same : plan.before = preview.before → plan.after = preview.after

theorem asApproved_of_plans {args : WriteArgs} {preview plan : DiffPreview}
    (h_preview : args.change.after preview.before = .ok preview.after)
    (h_plan : args.change.after plan.before = .ok plan.after) :
    AsApproved args preview plan where
  whole content h_content := by
    rw [h_content] at h_preview h_plan
    exact ⟨(Except.ok.inj h_plan).symm, (Except.ok.inj h_preview).symm⟩
  edited edits h_edits := by
    rw [h_edits] at h_plan
    exact edited_of_applyEditsFrom h_plan
  same h_before := by
    rw [h_before, h_preview] at h_plan
    exact (Except.ok.inj h_plan).symm

/-- The shown previews and the plans are plans of the call. -/
def CallInv (call : WriteCall) : Prop :=
  match call.phase with
  | .pending preview | .running preview _ =>
      call.args.change.after preview.before = .ok preview.after
  | .writing preview plan | .written preview plan _ =>
      call.args.change.after preview.before = .ok preview.after ∧
        call.args.change.after plan.before = .ok plan.after
  | _ => True

section Steps

variable {P : Type} [DecidableEq P] {place : String → String → Option P}
  {decode : Bytes → Text} {encode : Text → Bytes} {f f' : Files P}

/-- The text of the file at a place, empty when there is none. -/
def Files.textAt (f : Files P) (decode : Bytes → Text) (p : P) : Text :=
  ((f.disk p).map decode).getD []

omit [DecidableEq P] in
/-- What a step of `plan` does: it fails, goes on, or makes the plan of the text that is
    there now. -/
theorem readStep_cases (place : String → String → Option P) (decode : Bytes → Text) (f : Files P)
    (args : WriteArgs) (reading : Reading) (again : Reading → CallPhase)
    (next : DiffPreview → CallPhase) :
    f.readStep place decode args reading again next = .failed ∨
      f.readStep place decode args reading again next = again .opening ∨
      ∃ plan p, place args.serverId args.path = some p ∧ plan.before = f.textAt decode p ∧
        args.change.after plan.before = .ok plan.after ∧
          f.readStep place decode args reading again next = next plan := by
  rw [Files.readStep]
  split
  · exact .inl rfl
  rename_i p h_place
  -- a plan that came out is one of the text read
  have h_planned : ∀ before, before.getD [] = f.textAt decode p →
      Files.planned (planOf args before) next = .failed ∨
        ∃ plan, plan.before = f.textAt decode p ∧
          args.change.after plan.before = .ok plan.after ∧
            Files.planned (planOf args before) next = next plan := by
    intro before h_before
    cases h_plan : planOf args before with
    | error _ => exact .inl rfl
    | ok plan =>
      obtain ⟨h_text, h_after⟩ := planOf_eq_ok h_plan
      exact .inr ⟨plan, h_text.trans h_before, h_after, rfl⟩
  split
  · rename_i h_none
    rcases h_planned none (by rw [Files.textAt, h_none]; rfl) with h_failed | ⟨plan, h_plan⟩
    · exact .inl h_failed
    · exact .inr (.inr ⟨plan, p, h_place, h_plan⟩)
  · exact .inr (.inl rfl)
  · exact .inl rfl
  · rename_i buffer h_some
    split
    · exact .inl rfl
    rcases h_planned (some (decode buffer)) (by rw [Files.textAt, h_some]; rfl) with
      h_failed | ⟨plan, h_plan⟩
    · exact .inl h_failed
    · exact .inr (.inr ⟨plan, p, h_place, h_plan⟩)

/-- How a step moves call `k` from one phase to another. -/
inductive Moves (place : String → String → Option P) (decode : Bytes → Text) (f : Files P)
    (k : Nat) (args : WriteArgs) : FileEvent P → CallPhase → CallPhase → Prop
  | failed (e : FileEvent P) (phase : CallPhase) : Moves place decode f k args e phase .failed
  | look (reading : Reading) :
      Moves place decode f k args (.read k) (.previewing reading) (.previewing .opening)
  | shown {preview : DiffPreview} (reading : Reading)
      (h : args.change.after preview.before = .ok preview.after) :
      Moves place decode f k args (.read k) (.previewing reading) (.pending preview)
  | approved (preview : DiffPreview) :
      Moves place decode f k args (.approve k) (.pending preview) (.running preview .looking)
  | lookAgain (preview : DiffPreview) (reading : Reading) :
      Moves place decode f k args (.read k) (.running preview reading) (.running preview .opening)
  | planned {plan : DiffPreview} {p : P} (preview : DiffPreview) (reading : Reading)
      (h_place : place args.serverId args.path = some p)
      (h_before : plan.before = f.textAt decode p)
      (h : args.change.after plan.before = .ok plan.after) :
      Moves place decode f k args (.read k) (.running preview reading) (.writing preview plan)
  | wrote (preview plan : DiffPreview) (overwritten : Option Bytes) :
      Moves place decode f k args (.write k) (.writing preview plan)
        (.written preview plan overwritten)

theorem begin_cases (args : WriteArgs) (next : Reading → CallPhase) :
    Files.begin_ args next = .failed ∨ Files.begin_ args next = next .looking := by
  rw [Files.begin_]
  split
  · exact .inl rfl
  · exact .inr rfl

/-- A step changes a file from outside, adds a call, or moves one call; and only the move
    to `written` changes the disk. -/
theorem step_cases {e : FileEvent P} (h : Files.step place decode encode f e = some f') :
    (∃ p content, e = .touch p content ∧ f'.calls = f.calls) ∨
      (∃ args, f'.disk = f.disk ∧
        f'.calls = f.calls ++ [⟨args, Files.begin_ args .previewing⟩]) ∨
      ∃ k args phase phase', f.calls[k]? = some ⟨args, phase⟩ ∧
        f'.calls = f.calls.set k ⟨args, phase'⟩ ∧ Moves place decode f k args e phase phase' ∧
          (f'.disk = f.disk ∨ ∃ preview plan p, e = .write k ∧ phase = .writing preview plan ∧
            place args.serverId args.path = some p ∧
              f'.disk = Function.update f.disk p (some (encode plan.after))) := by
  cases e with
  | touch p content =>
    cases h
    exact .inl ⟨p, content, rfl, rfl⟩
  | call args =>
    cases h
    exact .inr (.inl ⟨args, rfl, rfl⟩)
  | read k =>
    refine .inr (.inr ?_)
    simp only [Files.step, Files.read] at h
    split at h
    · cases h
    rename_i call h_k
    obtain ⟨args, phase⟩ := call
    cases phase with
    | previewing reading =>
      cases h
      refine ⟨k, args, _, _, h_k, rfl, ?_, .inl rfl⟩
      rcases readStep_cases place decode f args reading
        .previewing .pending with h_eq | h_eq | ⟨plan, p, -, -, h_after, h_eq⟩
      · rw [h_eq]
        exact .failed _ _
      · rw [h_eq]
        exact .look reading
      · rw [h_eq]
        exact .shown reading h_after
    | running preview reading =>
      cases h
      refine ⟨k, args, _, _, h_k, rfl, ?_, .inl rfl⟩
      rcases readStep_cases place decode f args reading
        (.running preview) (.writing preview) with
        h_eq | h_eq | ⟨plan, p, h_place, h_before, h_after, h_eq⟩
      · rw [h_eq]
        exact .failed _ _
      · rw [h_eq]
        exact .lookAgain preview reading
      · rw [h_eq]
        exact .planned preview reading h_place h_before h_after
    | pending preview => cases h
    | writing preview plan => cases h
    | written preview plan overwritten => cases h
    | failed => cases h
  | approve k =>
    refine .inr (.inr ?_)
    simp only [Files.step, Files.approve] at h
    split at h
    · rename_i args preview h_k
      cases h
      refine ⟨k, args, _, _, h_k, rfl, ?_, .inl rfl⟩
      rcases begin_cases args (.running preview) with h_eq | h_eq
      · rw [h_eq]
        exact .failed _ _
      · rw [h_eq]
        exact .approved preview
    · cases h
  | fail k =>
    refine .inr (.inr ?_)
    simp only [Files.step, Files.fail] at h
    split at h
    · cases h
    rename_i call h_k
    obtain ⟨args, phase⟩ := call
    split at h
    · cases h
    · cases h
    · cases h
      exact ⟨k, args, phase, .failed, h_k, rfl, .failed _ _, .inl rfl⟩
  | write k =>
    refine .inr (.inr ?_)
    simp only [Files.step, Files.write] at h
    split at h
    · rename_i args preview plan h_k
      split at h
      · cases h
      · rename_i p h_place
        cases h
        exact ⟨k, args, _, _, h_k, rfl, .wrote preview plan _,
          .inr ⟨preview, plan, p, rfl, rfl, h_place, rfl⟩⟩
    · cases h

omit [DecidableEq P] in
/-- A moved call keeps its plans. -/
theorem callInv_moves {k : Nat} {args : WriteArgs} {e : FileEvent P} {phase phase' : CallPhase}
    (h : Moves place decode f k args e phase phase') (h_inv : CallInv ⟨args, phase⟩) :
    CallInv ⟨args, phase'⟩ := by
  cases h with
  | failed => trivial
  | look => trivial
  | shown reading h_after => exact h_after
  | approved => exact h_inv
  | lookAgain => exact h_inv
  | planned preview reading h_place h_before h_after => exact ⟨h_inv, h_after⟩
  | wrote => exact h_inv

theorem callInv_of_reachable (h : (filesMachine place decode encode).Reachable f) :
    ∀ call ∈ f.calls, CallInv call := by
  refine Machine.Reachable.invariant (P := fun f : Files P => ∀ call ∈ f.calls, CallInv call)
    ?_ ?_ h
  · intro f h_init call h_call
    rw [show f.calls = [] from h_init] at h_call
    cases h_call
  · intro f e f' h_inv h_step call h_call
    rcases step_cases h_step with ⟨-, -, -, h_calls⟩ | ⟨args, -, h_calls⟩ |
      ⟨k, args, phase, phase', h_k, h_calls, h_moves, -⟩
    · rw [h_calls] at h_call
      exact h_inv call h_call
    · rw [h_calls] at h_call
      rcases List.mem_append.mp h_call with h_old | h_new
      · exact h_inv call h_old
      · rw [List.mem_singleton.mp h_new]
        rcases begin_cases args .previewing with h_eq | h_eq
        · rw [h_eq]
          trivial
        · rw [h_eq]
          trivial
    · rw [h_calls] at h_call
      rcases List.mem_or_eq_of_mem_set h_call with h_old | h_eq
      · exact h_inv call h_old
      · rw [h_eq]
        exact callInv_moves h_moves (h_inv _ (List.mem_of_getElem? h_k))

/-- One step: what it does to the disk, and how a call comes to run and to write. -/
structure ApprovedChange (place : String → String → Option P) (decode : Bytes → Text)
    (encode : Text → Bytes) (f f' : Files P) (e : FileEvent P) : Prop where
  /-- Only an approved call writes, and it writes the plan of its own execution. -/
  disk : f'.disk = f.disk ∨ (∃ p content, e = .touch p content) ∨
    ∃ k args preview plan p, e = .write k ∧ f.calls[k]? = some ⟨args, .writing preview plan⟩ ∧
      place args.serverId args.path = some p ∧
        f'.disk = Function.update f.disk p (some (encode plan.after)) ∧
          AsApproved args preview plan
  /-- The plan was made from the text the execution read. -/
  planned : ∀ k args preview plan, f'.calls[k]? = some ⟨args, .writing preview plan⟩ →
    f.calls[k]? = some ⟨args, .writing preview plan⟩ ∨
      e = .read k ∧ (∃ reading, f.calls[k]? = some ⟨args, .running preview reading⟩) ∧
        ∃ p, place args.serverId args.path = some p ∧ plan.before = f.textAt decode p
  /-- A call runs once its preview was approved. -/
  approved : ∀ k args preview reading, f'.calls[k]? = some ⟨args, .running preview reading⟩ →
    (∃ reading', f.calls[k]? = some ⟨args, .running preview reading'⟩) ∨
      e = .approve k ∧ f.calls[k]? = some ⟨args, .pending preview⟩

/-- A call after the step was there before, is new, or was moved. -/
theorem call_cases {e : FileEvent P} (h : Files.step place decode encode f e = some f')
    {k : Nat} {args : WriteArgs} {phase' : CallPhase}
    (h_k : f'.calls[k]? = some ⟨args, phase'⟩) :
    f.calls[k]? = some ⟨args, phase'⟩ ∨ phase' = Files.begin_ args .previewing ∨
      ∃ phase, f.calls[k]? = some ⟨args, phase⟩ ∧ Moves place decode f k args e phase phase' := by
  rcases step_cases h with ⟨-, -, -, h_calls⟩ | ⟨args', -, h_calls⟩ |
    ⟨j, args', phase, phase'', h_j, h_calls, h_moves, -⟩
  · rw [h_calls] at h_k
    exact .inl h_k
  · rw [h_calls, List.getElem?_append] at h_k
    split at h_k
    · exact .inl h_k
    · have h_new := List.mem_singleton.mp (List.mem_of_getElem? h_k)
      cases h_new
      exact .inr (.inl rfl)
  · rw [h_calls] at h_k
    by_cases h_eq : j = k
    · subst h_eq
      rw [List.getElem?_set_self (List.getElem?_eq_some_iff.mp h_j).1] at h_k
      cases h_k
      exact .inr (.inr ⟨phase, h_j, h_moves⟩)
    · rw [List.getElem?_set_ne h_eq] at h_k
      exact .inl h_k

end Steps

/-! ## A file that changes before the approval -/

/-- One file, with texts of ASCII characters. -/
def asciiDecode (buffer : Bytes) : Text := buffer.map UInt8.toUInt16

def asciiEncode (text : Text) : Bytes := text.map UInt16.toUInt8

def oneFile : Machine (Files Unit) (FileEvent Unit) :=
  filesMachine (fun _ _ => some ()) asciiDecode asciiEncode

/-- A call that replaces `a` by `b`. -/
def replaceCall : WriteArgs where
  serverId := "s"
  path := "motd.txt"
  change := .edits [⟨unitsOf "a", unitsOf "b"⟩]

def fileWithA : Files Unit where
  disk _ := some (asciiEncode (unitsOf "a"))

/-- The preview is approved, and the call is about to write. -/
def approvedReplace : List (FileEvent Unit) :=
  [.call replaceCall, .read 0, .read 0, .approve 0, .read 0, .read 0]

/-- The same, and the file becomes `ac` while the preview is shown. -/
def changedReplace : List (FileEvent Unit) :=
  [.call replaceCall, .read 0, .read 0, .touch () (some (asciiEncode (unitsOf "ac"))),
   .approve 0, .read 0, .read 0, .write 0]

end Kubek.Assistant
