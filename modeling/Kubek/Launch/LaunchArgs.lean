/-
  Kubek.Launch.LaunchArgs

  Which texts may go into a launch command (launch-args.ts), and the part of a blueprint
  manifest that decides it.

  A template is read once into `Piece`s, literal characters and placeholders; the regular
  expression of a placeholder matches in one way only, because its three character
  classes have no character in common.
-/

import Kubek.Lib.JsText
import Kubek.Lib.JsonValue

namespace Kubek.Launch

open JsJson JsText

/-! ## Templates -/

/-- A literal character or a `\x7b\x7bKEY\x7d\x7d`. -/
inductive Piece
  | lit (c : Char)
  | hole (key : Text)
  deriving DecidableEq, Repr

/-- `\w` of a regular expression. -/
def isWordChar (c : Char) : Bool := c.isAlphanum || c == '_'

/-- `PLACEHOLDER` at the start of a text: its key and the text behind it. -/
def placeholder? : Text → Option (Text × Text)
  | '{' :: '{' :: rest =>
      let rest := rest.dropWhile isSpace
      let isKeyChar := fun c => isWordChar c || c == '.'
      match (rest.dropWhile isKeyChar).dropWhile isSpace with
      | '}' :: '}' :: tail =>
          if rest.takeWhile isKeyChar = [] then none else some (rest.takeWhile isKeyChar, tail)
      | _ => none
  | _ => none

/-- `skip` more characters belong to the placeholder read last. -/
def scan : Nat → Text → List Piece
  | _, [] => []
  | skip + 1, _ :: cs => scan skip cs
  | 0, c :: cs =>
      match placeholder? (c :: cs) with
      | some (key, tail) => .hole key :: scan (cs.length - tail.length) cs
      | none => .lit c :: scan 0 cs

/-- A template, taken apart at its placeholders. -/
def pieces (template : Text) : List Piece := scan 0 template

/-- The keys of the placeholders. -/
def holes (ps : List Piece) : List Text :=
  ps.filterMap fun
    | .lit _ => none
    | .hole key => some key

/-! ## Blueprints -/

inductive VariableType
  | number
  | boolean
  /-- Any other type: the value is a text. -/
  | text
  deriving DecidableEq, Repr

structure BlueprintVariable (N : Type) where
  key : Text
  type : VariableType := .text
  default : Option (JsonValue N) := none
  rules : Option Text := none
  /-- `options.from` is `"versions"`. -/
  fromVersions : Bool := false

structure BlueprintPort (N : Type) where
  key : Text
  default : N
  env : Option Text := none
  primary : Bool := false

structure Startup where
  command : Option Text
  commandByPlatform : List (Text × Text) := []

structure KubekBlueprintManifest (N : Type) where
  id : Text
  vars : List (BlueprintVariable N)
  ports : List (BlueprintPort N)
  startup : Option Startup
  /-- `runtime.kind` is `"docker"`. -/
  dockerOnly : Bool := false
  /-- There is a `dockerProfile`. -/
  dockerProfile : Bool := false

/-- A plain object, as far as it is read: the value at every key. -/
abbrev Record (V : Type) := Text → Option V

/-- `record[key] = v`. -/
def Record.set {V : Type} (record : Record V) (key : Text) (v : V) : Record V :=
  fun k => if k = key then some v else record k

@[simp] theorem Record.set_apply {V : Type} (record : Record V) (key k : Text) (v : V) :
    record.set key v k = if k = key then some v else record k := rfl

/-! ## The check -/

/-- `SHELL_META`. -/
def isShellMeta (c : Char) : Bool := ";|&$`<>()".toList.contains c

/-- `CONTROL`. -/
def isControl (c : Char) : Bool := c.toNat < 0x20 || c.toNat == 0x7f

inductive Reason
  | control
  | shellMeta (c : Char)
  | commandHook
  | quotes
  deriving DecidableEq, Repr

def Reason.message : Reason → String
  | .control => "control characters are not allowed"
  | .shellMeta c => "character \"" ++ String.ofList [c] ++ "\" is not allowed"
  | .commandHook => "-XX:OnError and -XX:OnOutOfMemoryError are not allowed"
  | .quotes => "quotes are not balanced"

/-- What is left behind a word, in whatever case it is written. -/
def afterWord? (word : String) (text : Text) : Option Text :=
  if word.toList.isPrefixOf (text.map Char.toLower) then some (text.drop word.length) else none

/-- `\b` behind a letter. -/
def endsWord : Text → Bool
  | [] => true
  | c :: _ => !isWordChar c

/-- `-XX:\+?On(Error|OutOfMemoryError)\b` at the start of a text. -/
def isCommandHook (text : Text) : Bool :=
  match afterWord? "-xx:" text with
  | none => false
  | some rest =>
      let rest := if rest.head? = some '+' then rest.tail else rest
      match afterWord? "on" rest with
      | none => false
      | some rest =>
          (afterWord? "error" rest).any endsWord ||
            (afterWord? "outofmemoryerror" rest).any endsWord

/-- `JVM_COMMAND_HOOK`: the option has to stand at the start, or behind a space or quote. -/
def hasCommandHook (atStart : Bool) : Text → Bool
  | [] => false
  | c :: cs =>
      (atStart && isCommandHook (c :: cs)) ||
        hasCommandHook (isSpace c || c == '"' || c == '\'') cs

/-- The loop of `quotesBalanced` from an index on: the quote open there, and whether the
    index is skipped. -/
def quotesClose (quote : Option Char) (skip : Bool) : Text → Bool
  | [] => quote.isNone
  | c :: cs =>
      if skip then quotesClose quote false cs
      else if quote = some '\'' then quotesClose (if c = '\'' then none else quote) false cs
      else if c = '\\' ∧ cs.head? = some '"' then quotesClose quote true cs
      else if quote = some '"' then quotesClose (if c = '"' then none else quote) false cs
      else quotesClose (if c = '"' ∨ c = '\'' then some c else none) false cs

def quotesBalanced (value : Text) : Bool := quotesClose none false value

def unsafeLaunchReason (value : Text) : Option Reason :=
  if value.any isControl then some .control
  else
    match value.find? isShellMeta with
    | some c => some (.shellMeta c)
    | none =>
        if hasCommandHook true value then some .commandHook
        else if quotesBalanced value then none
        else some .quotes

/-- A text that passes has no control character and none of the shell's own. -/
theorem plain_of_safe {value : Text} (h : unsafeLaunchReason value = none) :
    ∀ c ∈ value, isControl c = false ∧ isShellMeta c = false := by
  intro c h_c
  simp only [unsafeLaunchReason] at h
  split at h
  · cases h
  · rename_i h_control
    split at h
    · cases h
    · rename_i h_meta
      have h_none := List.find?_eq_none.mp h_meta c h_c
      have h_any : ¬ isControl c = true := fun h_true =>
        h_control (List.any_eq_true.mpr ⟨c, h_c, h_true⟩)
      exact ⟨by simpa using h_any, by simpa using h_none⟩

section Blueprint

variable {N : Type} (blueprint : KubekBlueprintManifest N)

/-- The startup commands, for every platform. -/
def startupTemplates : List Text :=
  match blueprint.startup with
  | none => []
  | some startup => startup.command.toList ++ startup.commandByPlatform.map Prod.snd

/-- The keys of the variables and ports. -/
def declaredKeys : List Text :=
  blueprint.vars.map BlueprintVariable.key ++ blueprint.ports.map BlueprintPort.key

def launchVariableKeys : List Text :=
  let used := (startupTemplates blueprint).flatMap fun template => holes (pieces template)
  (declaredKeys blueprint).filter fun key => used.contains key

theorem mem_launchVariableKeys {key : Text} :
    key ∈ launchVariableKeys blueprint ↔
      key ∈ declaredKeys blueprint ∧
        ∃ template ∈ startupTemplates blueprint, key ∈ holes (pieces template) := by
  simp [launchVariableKeys, List.mem_filter]

structure UnsafeLaunchArgumentError where
  key : Text
  reason : Reason
  deriving DecidableEq, Repr

def UnsafeLaunchArgumentError.message (e : UnsafeLaunchArgumentError) : String :=
  "Variable " ++ String.ofList e.key ++ " can't be used in the launch command: " ++
    e.reason.message

/-- What is wrong with the value of a key; only strings are looked at. -/
def unsafeVariable? (vars : Record (JsonValue N)) (key : Text) :
    Option UnsafeLaunchArgumentError :=
  match vars key with
  | some (.str value) => (unsafeLaunchReason value).map (⟨key, ·⟩)
  | _ => none

def assertLaunchVariablesSafe (vars : Record (JsonValue N)) :
    Except UnsafeLaunchArgumentError Unit :=
  match (launchVariableKeys blueprint).findSome? (unsafeVariable? vars) with
  | some e => .error e
  | none => .ok ()

theorem assertLaunchVariablesSafe_eq_ok_iff (vars : Record (JsonValue N)) :
    assertLaunchVariablesSafe blueprint vars = .ok () ↔
      ∀ key ∈ launchVariableKeys blueprint, ∀ value, vars key = some (.str value) →
        unsafeLaunchReason value = none := by
  have h_check : assertLaunchVariablesSafe blueprint vars = .ok () ↔
      (launchVariableKeys blueprint).findSome? (unsafeVariable? vars) = none := by
    simp only [assertLaunchVariablesSafe]
    split <;> simp_all
  rw [h_check, List.findSome?_eq_none_iff]
  constructor
  · intro h key h_key value h_value
    have h_none := h key h_key
    rw [unsafeVariable?, h_value] at h_none
    exact Option.map_eq_none_iff.mp h_none
  · intro h key h_key
    unfold unsafeVariable?
    split
    · rename_i value h_value
      rw [h key h_key value h_value]
      rfl
    · rfl

/-- The error names a launch variable and what is wrong with its value. -/
theorem assertLaunchVariablesSafe_error {vars : Record (JsonValue N)}
    {e : UnsafeLaunchArgumentError}
    (h : assertLaunchVariablesSafe blueprint vars = .error e) :
    e.key ∈ launchVariableKeys blueprint ∧
      ∃ value, vars e.key = some (.str value) ∧ unsafeLaunchReason value = some e.reason := by
  simp only [assertLaunchVariablesSafe] at h
  split at h
  · rename_i e' h_some
    cases h
    obtain ⟨key, h_key, h_e⟩ := List.exists_of_findSome?_eq_some h_some
    unfold unsafeVariable? at h_e
    split at h_e
    · rename_i value h_value
      obtain ⟨reason, h_reason, rfl⟩ := Option.map_eq_some_iff.mp h_e
      exact ⟨h_key, value, h_value, h_reason⟩
    · cases h_e
  · cases h

end Blueprint

/-! ## Texts of numbers -/

/-- A character the check does not care about. -/
def isInert (c : Char) : Bool :=
  !isControl c && !isShellMeta c && c != '"' && c != '\'' && c != '\\' && c.toLower != ':'

theorem lt_of_isNumeral {c : Char} (h : isNumeral c = true) : c.toNat < 128 := by
  simp only [isNumeral, Bool.or_eq_true, beq_iff_eq] at h
  rcases h with ((h | rfl) | rfl) | rfl
  · -- the ranges that `isAlphanum` stands for
    have h_ranges : (c.val ≥ 'A'.val ∧ c.val ≤ 'Z'.val ∨ c.val ≥ 'a'.val ∧ c.val ≤ 'z'.val) ∨
        c.val ≥ '0'.val ∧ c.val ≤ '9'.val := by
      have h_bool : ((decide (c.val ≥ 'A'.val ∧ c.val ≤ 'Z'.val) ||
          decide (c.val ≥ 'a'.val) && decide (c.val ≤ 'z'.val)) ||
          decide (c.val ≥ '0'.val) && decide (c.val ≤ '9'.val)) = true := h
      simpa only [Bool.or_eq_true, Bool.and_eq_true, decide_eq_true_eq] using h_bool
    have h_val : c.toNat = c.val.toNat := rfl
    have h_Z : 'Z'.val.toNat = 90 := rfl
    have h_z : 'z'.val.toNat = 122 := rfl
    have h_9 : '9'.val.toNat = 57 := rfl
    simp only [UInt32.le_iff_toNat_le, ge_iff_le] at h_ranges
    omega
  all_goals decide

theorem isInert_of_isNumeral {c : Char} (h : isNumeral c = true) : isInert c = true := by
  have h_ascii : (List.range 128).all (fun n =>
      !isNumeral (Char.ofNat n) || isInert (Char.ofNat n)) = true := by decide
  have h_c := List.all_eq_true.mp h_ascii c.toNat (List.mem_range.mpr (lt_of_isNumeral h))
  rw [Char.ofNat_toNat, h] at h_c
  exact h_c

theorem isCommandHook_of_inert {text : Text} (h : ∀ c ∈ text, isInert c = true) :
    isCommandHook text = false := by
  have h_colon : afterWord? "-xx:" text = none := by
    unfold afterWord?
    rw [if_neg]
    intro h_pre
    have h_mem : ':' ∈ text.map Char.toLower :=
      (List.isPrefixOf_iff_prefix.mp h_pre).subset (by decide)
    obtain ⟨c, h_c, h_lower⟩ := List.mem_map.mp h_mem
    have h_inert := h c h_c
    simp [isInert, h_lower] at h_inert
  rw [isCommandHook, h_colon]

theorem hasCommandHook_of_inert {text : Text} (h : ∀ c ∈ text, isInert c = true)
    (atStart : Bool) : hasCommandHook atStart text = false := by
  induction text generalizing atStart with
  | nil => rfl
  | cons c cs ih =>
    have h_rest := ih fun d h_d => h d (List.mem_cons_of_mem _ h_d)
    rw [hasCommandHook, isCommandHook_of_inert h, h_rest, Bool.and_false, Bool.or_false]

theorem quotesBalanced_of_inert {text : Text} (h : ∀ c ∈ text, isInert c = true) :
    quotesBalanced text = true := by
  unfold quotesBalanced
  induction text with
  | nil => rfl
  | cons c cs ih =>
    have h_c := h c List.mem_cons_self
    have h_rest := ih fun d h_d => h d (List.mem_cons_of_mem _ h_d)
    simp only [isInert, Bool.and_eq_true, bne_iff_ne, ne_eq] at h_c
    obtain ⟨⟨⟨⟨-, h_double⟩, h_single⟩, h_backslash⟩, -⟩ := h_c
    simpa [quotesClose, h_double, h_single, h_backslash] using h_rest

theorem safe_of_inert {text : Text} (h : ∀ c ∈ text, isInert c = true) :
    unsafeLaunchReason text = none := by
  have h_control : text.any isControl = false := by
    refine List.any_eq_false.mpr fun c h_c h_true => ?_
    have h_inert := h c h_c
    simp [isInert, h_true] at h_inert
  have h_meta : text.find? isShellMeta = none := by
    refine List.find?_eq_none.mpr fun c h_c h_true => ?_
    have h_inert := h c h_c
    simp [isInert, h_true] at h_inert
  simp [unsafeLaunchReason, h_control, h_meta, hasCommandHook_of_inert h,
    quotesBalanced_of_inert h]

/-- A number can go into the command. -/
theorem number_safe (js : Numbers) (n : js.Num) : unsafeLaunchReason (js.text n) = none :=
  safe_of_inert fun c h_c => isInert_of_isNumeral (js.text_numeral n c h_c)

/-- And so can a boolean. -/
theorem bool_safe (js : Numbers) {b : Bool} {text : Text}
    (h : toText js (.bool b) = some text) : unsafeLaunchReason text = none := by
  cases b <;> cases h <;> rfl

end Kubek.Launch
