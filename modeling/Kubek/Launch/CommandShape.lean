/-
  Kubek.Launch.CommandShape

  What the values of launch variables do to the shape of the startup command.

  The template is read twice: on its own, every placeholder counting as a piece of word
  text at its place, and as part of the command, with the values substituted. The shape
  is kept when both readings give every character of the template the same role and every
  value is word text where it stands: outside quotes it may hold words, blanks and quotes
  that it closes itself, inside double quotes only text.

  The check of launch-args.ts keeps operators, expansions and line ends out of the values.
  Its own idea of quotes is not the shell's, so the rest is left to the values:
  `Contained` says what they have to look like.

  Placeholders of the panel's own names (`JAVA_BIN`, `SERVER_DIR`) count as the text they
  are replaced with, so that only launch variables are left as placeholders.
-/

import Kubek.Launch.CheckedCommands
import Kubek.Lib.ShTokens

namespace Kubek.Launch

open JsJson ShTokens

section Shape

variable {js : Numbers}

/-! ## The command -/

/-- A scope that gives the launch variables these values and leaves the rest to the panel. -/
def assigned (blueprint : KubekBlueprintManifest js.Num) (own : ResolveScope js.Num)
    (values : JsJson.Text → JsJson.Text) : ResolveScope js.Num :=
  fun key =>
    if key ∈ launchVariableKeys blueprint then some { value := .str (values key) } else own key

/-- The pieces of a template, with the panel's own placeholders replaced. -/
def ownFilled (blueprint : KubekBlueprintManifest js.Num) (own : ResolveScope js.Num) :
    List Piece → List Piece
  | [] => []
  | .lit c :: ps => .lit c :: ownFilled blueprint own ps
  | .hole key :: ps =>
      if key ∈ launchVariableKeys blueprint then .hole key :: ownFilled blueprint own ps
      else ((scopeText own key).getD []).map .lit ++ ownFilled blueprint own ps

/-- A text with the values at its placeholders. -/
def fillText (values : JsJson.Text → JsJson.Text) : List Piece → JsJson.Text
  | [] => []
  | .lit c :: ps => c :: fillText values ps
  | .hole key :: ps => values key ++ fillText values ps

attribute [local simp] fillText in
theorem fillText_append (values : JsJson.Text → JsJson.Text) (ps qs : List Piece) :
    fillText values (ps ++ qs) = fillText values ps ++ fillText values qs := by
  induction ps with
  | nil => rfl
  | cons p ps ih =>
    cases p with
    | lit c => rw [List.cons_append, fillText, fillText, ih, List.cons_append]
    | hole key => rw [List.cons_append, fillText, fillText, ih, List.append_assoc]

theorem fillText_map_lit (values : JsJson.Text → JsJson.Text) (text : JsJson.Text) :
    fillText values (text.map .lit) = text := by
  induction text with
  | nil => rfl
  | cons c cs ih => rw [List.map_cons, fillText, ih]

/-- The command is the template with the values at the placeholders left over. -/
theorem fill_assigned {blueprint : KubekBlueprintManifest js.Num} {own : ResolveScope js.Num}
    {values : JsJson.Text → JsJson.Text} {ps : List Piece} {command : JsJson.Text}
    (h : fill (scopeText (assigned blueprint own values)) ps = some command) :
    command = fillText values (ownFilled blueprint own ps) := by
  induction ps generalizing command with
  | nil =>
    cases h
    rfl
  | cons p ps ih =>
    cases p with
    | lit c =>
      obtain ⟨rest, h_rest, rfl⟩ := Option.map_eq_some_iff.mp h
      rw [ownFilled, fillText, ih h_rest]
    | hole key =>
      simp only [fill] at h
      split at h
      · rename_i text rest h_text h_rest
        cases h
        rw [ownFilled]
        by_cases h_key : key ∈ launchVariableKeys blueprint
        · have h_value : text = values key := by
            simpa [scopeText, assigned, h_key, toText] using h_text.symm
          rw [if_pos h_key, fillText, ih h_rest, h_value]
        · have h_own : scopeText own key = some text := by
            simpa [scopeText, assigned, h_key] using h_text
          rw [if_neg h_key, fillText_append, fillText_map_lit, ih h_rest, h_own]
          rfl
      · cases h

/-- Only launch variables are left as placeholders. -/
theorem hole_mem_ownFilled {blueprint : KubekBlueprintManifest js.Num}
    {own : ResolveScope js.Num} {ps : List Piece} {key : JsJson.Text}
    (h : .hole key ∈ ownFilled blueprint own ps) : key ∈ launchVariableKeys blueprint := by
  induction ps with
  | nil => cases h
  | cons p ps ih =>
    cases p with
    | lit c =>
      rcases List.mem_cons.mp h with h | h
      · cases h
      · exact ih h
    | hole key' =>
      rw [ownFilled] at h
      split at h
      · rename_i h_key
        rcases List.mem_cons.mp h with h | h
        · cases h
          exact h_key
        · exact ih h
      · rcases List.mem_append.mp h with h | h
        · obtain ⟨c, -, h_c⟩ := List.mem_map.mp h
          cases h_c
        · exact ih h

/-! ## The two readings -/

variable {sh : Shell} (values : JsJson.Text → JsJson.Text)

/-- A placeholder on its own: a piece of word text. -/
def placeholder (s : State sh) : State sh :=
  match s.mode with
  | .bare _ => enter s (.bare .text)
  | _ => s

/-- The template's own reading. -/
def readOwn (s : State sh) : List Piece → State sh
  | [] => s
  | .lit c :: ps => readOwn (readChar s c).1 ps
  | .hole _ :: ps => readOwn (placeholder s) ps

/-- The template's own reading up to the piece `i`. -/
def ownAt (sh : Shell) (ps : List Piece) (i : Nat) : State sh := readOwn (start sh) (ps.take i)

/-- The reading of the command up to there. -/
def commandAt (sh : Shell) (ps : List Piece) (i : Nat) : State sh :=
  after (start sh) (fillText values (ps.take i))

/-- The value is word text at a place outside quotes or inside double quotes. -/
def Contributes (s : State sh) (value : JsJson.Text) : Prop :=
  match s.mode with
  | .bare _ => ContributesBare s value
  | .double => ContributesDouble s value
  | _ => False

/-- The command has the template's own parse, and the values only add word text. -/
structure KeepsShape (sh : Shell) (ps : List Piece) : Prop where
  /-- Every character of the template means what it meant. -/
  template : ∀ i c, ps[i]? = some (.lit c) →
    (readChar (commandAt values sh ps i) c).2 = (readChar (ownAt sh ps i) c).2
  value : ∀ i key, ps[i]? = some (.hole key) →
    Contributes (commandAt values sh ps i) (values key)

/-- Outside or inside double quotes, with nothing pending. -/
def Mode.isPlace : Mode → Bool
  | .bare _ | .double => true
  | _ => false

/-- Every placeholder of the template stands outside or inside double quotes. -/
def Placed (sh : Shell) (ps : List Piece) : Prop :=
  ∀ i key, ps[i]? = some (.hole key) → Mode.isPlace (ownAt sh ps i).mode = true

/-! ## The values that fit -/

/-- The word that is being read. -/
def wordAt (s : State sh) : Word :=
  match s.mode with
  | .bare w => w
  | .escape w => w
  | _ => .text

/-- What the value has to look like in its place. -/
def Fits (mode : Mode) (w : Word) (value : JsJson.Text) : Prop :=
  match mode with
  | .bare _ => BareText w value
  | .double => DoubleText value
  | _ => False

/-- Whether a character outside quotes depends on the word in front of it: a `#` at the
    start of a word is a comment, and digits before a redirection are its descriptor. -/
def SameBoundary (c : Char) (w w' : Word) : Prop :=
  (c = '#' → (w = .start ↔ w' = .start)) ∧
    (c = '<' ∨ c = '>' → (w = .digits ↔ w' = .digits))

structure Contained (sh : Shell) (ps : List Piece) : Prop where
  value : ∀ i key, ps[i]? = some (.hole key) →
    Fits (ownAt sh ps i).mode (wordAt (commandAt values sh ps i)) (values key)
  boundary : ∀ i c w, ps[i]? = some (.lit c) → (ownAt sh ps i).mode = .bare w →
    SameBoundary c w (wordAt (commandAt values sh ps i))

/-! ## The readings side by side -/

/-- The mode without the word that is being read. -/
def Mode.forget : Mode → Mode
  | .bare _ => .bare .text
  | .escape _ => .escape .text
  | mode => mode

/-- The command is at the same place as the template's own reading, in some word. -/
def Tracks (own act : State sh) : Prop :=
  act.outer = own.outer ∧ Mode.forget act.mode = Mode.forget own.mode

/-- Outside quotes the readings differ in the word only, and so do their next steps. -/
theorem stepBare_tracks (o : sh.Outer) (w w' : Word) (c : Char) :
    ((readChar (⟨o, .bare w'⟩ : State sh) c).2 = (readChar (⟨o, .bare w⟩ : State sh) c).2 ↔
        SameBoundary c w w') ∧
      ((readChar (⟨o, .bare w'⟩ : State sh) c).2 = (readChar (⟨o, .bare w⟩ : State sh) c).2 →
        Tracks (readChar (⟨o, .bare w⟩ : State sh) c).1 (readChar (⟨o, .bare w'⟩ : State sh) c).1) := by
  by_cases h_backslash : c = '\\'
  · subst h_backslash
    exact ⟨by simp [step_backslash, SameBoundary], fun _ => ⟨rfl, rfl⟩⟩
  by_cases h_single : c = '\''
  · subst h_single
    exact ⟨by simp [step_openSingle, SameBoundary], fun _ => ⟨rfl, rfl⟩⟩
  by_cases h_double : c = '"'
  · subst h_double
    exact ⟨by simp [step_openDouble, SameBoundary], fun _ => ⟨rfl, rfl⟩⟩
  by_cases h_blank : isBlank c = true
  · have h_c : c ≠ '#' ∧ c ≠ '<' ∧ c ≠ '>' := by
      refine ⟨?_, ?_, ?_⟩ <;> rintro rfl <;> cases h_blank
    rw [step_blank h_blank, step_blank h_blank]
    exact ⟨by simp [SameBoundary, h_c], fun _ => ⟨rfl, rfl⟩⟩
  by_cases h_hash : c = '#'
  · subst h_hash
    cases w <;> cases w' <;> simp [SameBoundary, Tracks, readChar, stepBare, enter, isBlank,
      isSpecial, Mode.forget]
  by_cases h_special : isSpecial c = true
  · rw [step_special h_special, step_special h_special]
    refine ⟨?_, fun _ => ⟨rfl, rfl⟩⟩
    by_cases h_redirect : c = '<' ∨ c = '>'
    · rcases h_redirect with rfl | rfl <;> simp [fromShell, SameBoundary, iff_comm]
    · obtain ⟨h_in, h_out⟩ := not_or.mp h_redirect
      have h_none : (c == '<' || c == '>') = false := by simp [h_in, h_out]
      simp [fromShell, SameBoundary, h_hash, h_in, h_out, h_none]
  · have h_plain : isPlain c = true := by
      simp [isPlain, h_blank, h_backslash, h_single, h_double]
    have h_c : c ≠ '<' ∧ c ≠ '>' := by
      refine ⟨?_, ?_⟩ <;> rintro rfl <;> exact h_special rfl
    have h_word := fun v : Word =>
      @step_plain sh o v c h_plain (fun h_eq => absurd h_eq h_hash) (by simpa using h_special)
    rw [h_word, h_word]
    exact ⟨by simp [SameBoundary, h_hash, h_c], fun _ => ⟨rfl, rfl⟩⟩

/-- A character of the template has its own role in the command exactly when the word in
    front of it makes no difference, and then the readings stay side by side. -/
theorem step_tracks {own act : State sh} (h : Tracks own act) (c : Char) :
    ((readChar act c).2 = (readChar own c).2 ↔
        ∀ w, own.mode = .bare w → SameBoundary c w (wordAt act)) ∧
      ((readChar act c).2 = (readChar own c).2 → Tracks (readChar own c).1 (readChar act c).1) := by
  obtain ⟨o, m⟩ := own
  obtain ⟨o', m'⟩ := act
  obtain ⟨rfl, h_mode⟩ := h
  have h_same : m' = m → (∀ w, m ≠ .bare w) →
      (((readChar (⟨o', m'⟩ : State sh) c).2 = (readChar (⟨o', m⟩ : State sh) c).2 ↔
        ∀ w, m = .bare w → SameBoundary c w (wordAt (⟨o', m'⟩ : State sh))) ∧
      ((readChar (⟨o', m'⟩ : State sh) c).2 = (readChar (⟨o', m⟩ : State sh) c).2 →
        Tracks (readChar (⟨o', m⟩ : State sh) c).1 (readChar (⟨o', m'⟩ : State sh) c).1)) := by
    rintro rfl h_bare
    exact ⟨⟨fun _ w h_w => absurd h_w (h_bare w), fun _ => rfl⟩, fun _ => ⟨rfl, rfl⟩⟩
  cases m with
  | bare w =>
    cases m' <;> try (cases h_mode; done)
    rename_i w'
    obtain ⟨h_iff, h_tracks⟩ := stepBare_tracks o' w w' c
    refine ⟨h_iff.trans ⟨?_, fun h => h w rfl⟩, h_tracks⟩
    rintro h v ⟨rfl⟩
    exact h
  | escape w =>
    cases m' <;> try (cases h_mode; done)
    by_cases h_c : c = '\n'
    · subst h_c
      refine ⟨⟨fun _ v h_v => ?_, fun _ => rfl⟩, fun _ => ⟨rfl, rfl⟩⟩
      cases h_v
    · rw [step_escaped h_c, step_escaped h_c]
      refine ⟨⟨fun _ v h_v => ?_, fun _ => rfl⟩, fun _ => ⟨rfl, rfl⟩⟩
      cases h_v
  | _ =>
    cases m' <;> try (cases h_mode; done)
    exact h_same rfl (by simp)

/-- A value that is harmless contributes at its place exactly when it fits there, and then
    the readings stay side by side. -/
theorem hole_tracks {own act : State sh} (h : Tracks own act)
    (h_place : Mode.isPlace own.mode = true) {value : JsJson.Text} (h_value : Harmless value) :
    (Contributes act value ↔ Fits own.mode (wordAt act) value) ∧
      (Contributes act value → Tracks (placeholder own) (after act value)) := by
  obtain ⟨o, m⟩ := own
  obtain ⟨o', m'⟩ := act
  obtain ⟨rfl, h_mode⟩ := h
  cases m <;> try (cases h_place; done)
  case bare w =>
    cases m' <;> try (cases h_mode; done)
    refine ⟨contributesBare_iff h_value, ?_⟩
    rintro ⟨w'', -, h_after⟩
    rw [h_after]
    exact ⟨rfl, rfl⟩
  case double =>
    cases m' <;> try (cases h_mode; done)
    refine ⟨contributesDouble_iff h_value, ?_⟩
    rintro ⟨-, h_after⟩
    rw [h_after]
    exact ⟨rfl, rfl⟩

theorem readOwn_append (s : State sh) (ps qs : List Piece) :
    readOwn s (ps ++ qs) = readOwn (readOwn s ps) qs := by
  induction ps generalizing s with
  | nil => rfl
  | cons p ps ih =>
    cases p with
    | lit c => exact ih _
    | hole key => exact ih _

section Pieces

variable {ps : List Piece} {i : Nat}

theorem ownAt_lit {c : Char} (h : ps[i]? = some (.lit c)) :
    ownAt sh ps (i + 1) = (readChar (ownAt sh ps i) c).1 := by
  rw [ownAt, List.take_add_one, h, readOwn_append]
  rfl

theorem ownAt_hole {key : JsJson.Text} (h : ps[i]? = some (.hole key)) :
    ownAt sh ps (i + 1) = placeholder (ownAt sh ps i) := by
  rw [ownAt, List.take_add_one, h, readOwn_append]
  rfl

theorem commandAt_lit {c : Char} (h : ps[i]? = some (.lit c)) :
    commandAt values sh ps (i + 1) = (readChar (commandAt values sh ps i) c).1 := by
  rw [commandAt, List.take_add_one, h, fillText_append, after_append]
  rfl

theorem commandAt_hole {key : JsJson.Text} (h : ps[i]? = some (.hole key)) :
    commandAt values sh ps (i + 1) = after (commandAt values sh ps i) (values key) := by
  rw [commandAt, List.take_add_one, h, fillText_append, after_append]
  simp [fillText, commandAt]

/-- Side by side at every piece, when no piece takes the readings apart. -/
theorem tracks_at
    (h_lit : ∀ i c, ps[i]? = some (.lit c) → Tracks (ownAt sh ps i) (commandAt values sh ps i) →
      (readChar (commandAt values sh ps i) c).2 = (readChar (ownAt sh ps i) c).2)
    (h_hole : ∀ i key, ps[i]? = some (.hole key) →
      Tracks (ownAt sh ps i) (commandAt values sh ps i) →
      Tracks (placeholder (ownAt sh ps i)) (after (commandAt values sh ps i) (values key)))
    (i : Nat) (h_i : i ≤ ps.length) : Tracks (ownAt sh ps i) (commandAt values sh ps i) := by
  induction i with
  | zero => exact ⟨rfl, rfl⟩
  | succ i ih =>
    have h_before := ih (by omega)
    obtain ⟨p, h_p⟩ : ∃ p, ps[i]? = some p := by
      rw [List.getElem?_eq_getElem (by omega)]
      exact ⟨_, rfl⟩
    cases p with
    | lit c =>
      rw [ownAt_lit h_p, commandAt_lit values h_p]
      exact (step_tracks h_before c).2 (h_lit i c h_p h_before)
    | hole key =>
      rw [ownAt_hole h_p, commandAt_hole values h_p]
      exact h_hole i key h_p h_before

/-- A piece that is there is behind a prefix. -/
theorem le_length_of_getElem? {p : Piece} (h : ps[i]? = some p) : i ≤ ps.length := by
  obtain ⟨h_lt, -⟩ := List.getElem?_eq_some_iff.mp h
  omega

/-- Harmless values keep the shape exactly when they are contained. -/
theorem keepsShape_iff (h_placed : Placed sh ps)
    (h_values : ∀ key, .hole key ∈ ps → Harmless (values key)) :
    KeepsShape values sh ps ↔ Contained values sh ps := by
  have h_fit : ∀ i key, ps[i]? = some (.hole key) →
      Tracks (ownAt sh ps i) (commandAt values sh ps i) →
      (Contributes (commandAt values sh ps i) (values key) ↔
        Fits (ownAt sh ps i).mode (wordAt (commandAt values sh ps i)) (values key)) ∧
      (Contributes (commandAt values sh ps i) (values key) →
        Tracks (placeholder (ownAt sh ps i)) (after (commandAt values sh ps i) (values key))) :=
    fun i key h_key h_tracks => hole_tracks h_tracks (h_placed i key h_key)
      (h_values key (List.mem_of_getElem? h_key))
  constructor
  · intro h
    have h_tracks := tracks_at values (fun i c h_c _ => h.template i c h_c)
      fun i key h_key h_before => (h_fit i key h_key h_before).2 (h.value i key h_key)
    refine ⟨fun i key h_key => ?_, fun i c w h_c h_w => ?_⟩
    · have h_before := h_tracks i (le_length_of_getElem? h_key)
      exact (h_fit i key h_key h_before).1.mp (h.value i key h_key)
    · have h_before := h_tracks i (le_length_of_getElem? h_c)
      exact (step_tracks h_before c).1.mp (h.template i c h_c) w h_w
  · intro h
    have h_role : ∀ i c, ps[i]? = some (.lit c) →
        Tracks (ownAt sh ps i) (commandAt values sh ps i) →
        (readChar (commandAt values sh ps i) c).2 = (readChar (ownAt sh ps i) c).2 :=
      fun i c h_c h_before =>
        (step_tracks h_before c).1.mpr fun w h_w => h.boundary i c w h_c h_w
    have h_tracks := tracks_at values h_role fun i key h_key h_before =>
      (h_fit i key h_key h_before).2 ((h_fit i key h_key h_before).1.mpr (h.value i key h_key))
    refine ⟨fun i c h_c => ?_, fun i key h_key => ?_⟩
    · exact h_role i c h_c (h_tracks i (le_length_of_getElem? h_c))
    · have h_before := h_tracks i (le_length_of_getElem? h_key)
      exact (h_fit i key h_key h_before).1.mpr (h.value i key h_key)

end Pieces

/-- What the check lets through is harmless. -/
theorem harmless_of_safe {value : JsJson.Text} (h : unsafeLaunchReason value = none) :
    Harmless value := by
  have h_sub : "|&;<>()$`\n".toList.all (fun c => isControl c || isShellMeta c) = true := rfl
  intro c h_c
  obtain ⟨h_control, h_meta⟩ := plain_of_safe h c h_c
  rw [← Bool.not_eq_true]
  intro h_special
  have h_mem : c ∈ "|&;<>()$`\n".toList := by simpa [isSpecial] using h_special
  rcases Bool.or_eq_true_iff.mp (List.all_eq_true.mp h_sub c h_mem) with h_true | h_true
  · rw [h_control] at h_true
    cases h_true
  · rw [h_meta] at h_true
    cases h_true

/-- For every template and every assignment that the check accepts: the command is the
    template with the values at its placeholders, and it keeps the template's shape exactly
    when the values are contained. -/
theorem commandShape (sh : Shell) {blueprint : KubekBlueprintManifest js.Num}
    (own : ResolveScope js.Num) (template : JsJson.Text) (values : JsJson.Text → JsJson.Text)
    (h_safe : assertLaunchVariablesSafe blueprint (fun key => some (.str (values key))) = .ok ())
    (h_placed : Placed sh (ownFilled blueprint own (pieces template))) :
    (∀ command, substitute template (assigned blueprint own values) = some command →
      command = fillText values (ownFilled blueprint own (pieces template))) ∧
    (KeepsShape values sh (ownFilled blueprint own (pieces template)) ↔
      Contained values sh (ownFilled blueprint own (pieces template))) := by
  refine ⟨fun command h_command => fill_assigned h_command, keepsShape_iff values h_placed ?_⟩
  intro key h_key
  have h_keys := (assertLaunchVariablesSafe_eq_ok_iff _ _).mp h_safe
  exact harmless_of_safe (h_keys key (hole_mem_ownFilled h_key) (values key) rfl)

instance (sh : Shell) (ps : List Piece) : Decidable (Placed sh ps) :=
  decidable_of_iff
    ((List.range ps.length).all fun i =>
      match ps[i]? with
      | some (.hole _) => Mode.isPlace (ownAt sh ps i).mode
      | _ => true) <| by
    rw [List.all_eq_true]
    constructor
    · intro h i key h_key
      obtain ⟨h_lt, -⟩ := List.getElem?_eq_some_iff.mp h_key
      have h_i := h i (List.mem_range.mpr h_lt)
      rw [h_key] at h_i
      exact h_i
    · intro h i _
      split
      · rename_i key h_key
        exact h i key h_key
      · rfl

/-! ## A quote that stays open -/

/-- A shell on commands without expansions: every special character is an operator. -/
def operatorShell : Shell where
  Outer := Unit
  Reading := Char
  init := ()
  special _ _ c := ((), .bare .start, c)
  nested _ c := ((), .nested, c)

/-- The startup command of `jvmArgsBlueprint`. -/
def jvmArgsTemplate : JsJson.Text := "java \x7b\x7bJVM_ARGS\x7d\x7d -jar server.jar".toList

theorem assert_constant {value : JsJson.Text} (h : unsafeLaunchReason value = none) :
    assertLaunchVariablesSafe jvmArgsBlueprint (fun _ => some (.str value)) = .ok () := by
  rw [assertLaunchVariablesSafe_eq_ok_iff]
  rintro key - v ⟨rfl⟩
  exact h

theorem jvmArgs_placed :
    Placed operatorShell (ownFilled jvmArgsBlueprint (fun _ => none) (pieces jvmArgsTemplate)) := by
  decide +kernel

theorem commandShape_jvmArgs :
    let ps := ownFilled jvmArgsBlueprint (fun _ => none) (pieces jvmArgsTemplate)
    let values := fun _ => "-Dkey='a b'".toList
    KeepsShape values operatorShell ps ↔ Contained values operatorShell ps :=
  (commandShape operatorShell (fun _ => none) jvmArgsTemplate _
    (assert_constant (by decide +kernel)) jvmArgs_placed).2

/-- A backslash takes away the first of two quotes, and the second one opens. -/
theorem escaped_quote_breaks_shape :
    ¬ ∀ (js : Numbers) (sh : Shell) (blueprint : KubekBlueprintManifest js.Num)
        (own : ResolveScope js.Num) (values : JsJson.Text → JsJson.Text),
        ∀ template ∈ startupTemplates blueprint,
        assertLaunchVariablesSafe blueprint (fun key => some (.str (values key))) = .ok () →
        Placed sh (ownFilled blueprint own (pieces template)) →
        KeepsShape values sh (ownFilled blueprint own (pieces template)) := by
  intro h
  have h_keeps := h Numbers.naturals operatorShell jvmArgsBlueprint (fun _ => none)
    (fun _ => "\\''".toList) jvmArgsTemplate (by decide +kernel)
    (assert_constant (by decide +kernel)) jvmArgs_placed
  have h_hole : (ownFilled jvmArgsBlueprint (fun _ => none) (pieces jvmArgsTemplate))[5]? =
      some (.hole "JVM_ARGS".toList) := by decide +kernel
  have h_value := h_keeps.value 5 _ h_hole
  have h_mode : (commandAt (fun _ => "\\''".toList) operatorShell
      (ownFilled jvmArgsBlueprint (fun _ => none) (pieces jvmArgsTemplate)) 5).mode =
        .bare .start := by decide +kernel
  have h_open : (after (commandAt (fun _ => "\\''".toList) operatorShell
      (ownFilled jvmArgsBlueprint (fun _ => none) (pieces jvmArgsTemplate)) 5)
        "\\''".toList).mode = .single := by decide +kernel
  simp only [Contributes, h_mode] at h_value
  obtain ⟨w, -, h_after⟩ := h_value
  rw [h_after] at h_open
  cases h_open

end Shape

end Kubek.Launch
