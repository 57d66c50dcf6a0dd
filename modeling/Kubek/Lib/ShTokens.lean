/-
  Kubek.Lib.ShTokens

  How a POSIX shell reads the characters of a command, as far as token recognition goes:
  quoting, escapes, comments, blanks and the digits of an IO number.

  Whatever nests or belongs to the grammar (operators, `$` and backquote expansions, the
  bodies of here-documents) is the business of the parameter `Shell`; it gets the
  characters in question and says in which mode the reading goes on. In `Mode.nested` it
  reads every character itself, so nothing is assumed about those places.

  `BareText` and `DoubleText` are the texts that stay inside the words of their place,
  outside and inside double quotes, as grammars. `contributesBare_iff` and
  `contributesDouble_iff` say that the reading agrees with them.
-/

import Mathlib.Tactic.Common

namespace ShTokens

abbrev Text := List Char

/-! ## Reading -/

/-- What the word that is being read consists of so far. -/
inductive Word
  | start
  | digits
  | text
  deriving DecidableEq, Repr

inductive Mode
  /-- Outside quotes. -/
  | bare (word : Word)
  /-- Behind a backslash outside quotes. -/
  | escape (word : Word)
  | single
  | double
  /-- Behind a backslash in double quotes. -/
  | doubleEscape
  | comment
  /-- Somewhere the shell reads on its own. -/
  | nested
  deriving DecidableEq, Repr

inductive Quoting
  | bare
  | escaped
  | single
  | double
  deriving DecidableEq, Repr

/-- What a character is for. -/
inductive Role (R : Type)
  /-- A character of a word. -/
  | text (quoting : Quoting)
  | quote
  | backslash
  | blank
  | comment
  /-- The end of a line that goes on. -/
  | lineJoin
  /-- Something the shell makes of it; an IO number may stand in front. -/
  | special (ioNumber : Bool) (reading : R)
  deriving DecidableEq, Repr

/-- The part of a shell's reading that is not modelled. -/
structure Shell where
  /-- What it remembers around the mode: open substitutions, here-documents. -/
  Outer : Type
  Reading : Type
  init : Outer
  /-- A special character outside (`false`) or inside double quotes. -/
  special : Outer → Bool → Char → Outer × Mode × Reading
  nested : Outer → Char → Outer × Mode × Reading

structure State (sh : Shell) where
  outer : sh.Outer
  mode : Mode

def isBlank (c : Char) : Bool := c == ' ' || c == '\t'

/-- Special outside quotes. -/
def isSpecial (c : Char) : Bool := "|&;<>()$`\n".toList.contains c

/-- Special inside double quotes. -/
def isQuotedSpecial (c : Char) : Bool := "$`".toList.contains c

/-- What a backslash escapes inside double quotes. -/
def isQuotedEscape (c : Char) : Bool := isQuotedSpecial c || c == '"' || c == '\\'

/-- One more character of a word. -/
def Word.next (w : Word) (c : Char) : Word := if c.isDigit ∧ w ≠ .text then .digits else .text

variable {sh : Shell}

def enter (s : State sh) (mode : Mode) : State sh := { s with mode }

/-- The answer of the shell. -/
def fromShell (ioNumber : Bool) (answer : sh.Outer × Mode × sh.Reading) :
    State sh × Role sh.Reading :=
  (⟨answer.1, answer.2.1⟩, .special ioNumber answer.2.2)

/-- The character `c` outside quotes. -/
def stepBare (s : State sh) (w : Word) (c : Char) : State sh × Role sh.Reading :=
  if c = '\\' then (enter s (.escape w), .backslash)
  else if c = '\'' then (enter s .single, .quote)
  else if c = '"' then (enter s .double, .quote)
  else if isBlank c then (enter s (.bare .start), .blank)
  else if c = '#' ∧ w = .start then (enter s .comment, .comment)
  else if isSpecial c then
    -- digits right before a redirection are its file descriptor
    fromShell (w = .digits && (c == '<' || c == '>')) (sh.special s.outer false c)
  else (enter s (.bare (w.next c)), .text .bare)

def stepDouble (s : State sh) (c : Char) : State sh × Role sh.Reading :=
  if c = '\\' then (enter s .doubleEscape, .backslash)
  else if c = '"' then (enter s (.bare .text), .quote)
  else if isQuotedSpecial c then fromShell false (sh.special s.outer true c)
  else (enter s .double, .text .double)

def readChar (s : State sh) (c : Char) : State sh × Role sh.Reading :=
  match s.mode with
  | .bare w => stepBare s w c
  | .escape w =>
      if c = '\n' then (enter s (.bare w), .lineJoin)
      else (enter s (.bare .text), .text .escaped)
  | .single =>
      if c = '\'' then (enter s (.bare .text), .quote) else (enter s .single, .text .single)
  | .double => stepDouble s c
  | .doubleEscape =>
      if c = '\n' then (enter s .double, .lineJoin)
      else if isQuotedEscape c then (enter s .double, .text .escaped)
      else (enter s .double, .text .double)
  | .comment =>
      if c = '\n' then fromShell false (sh.special s.outer false c)
      else (enter s .comment, .comment)
  | .nested => fromShell false (sh.nested s.outer c)

/-- The state behind a text. -/
def after (s : State sh) : Text → State sh
  | [] => s
  | c :: cs => after (readChar s c).1 cs

/-- The roles of its characters. -/
def roles (s : State sh) : Text → List (Role sh.Reading)
  | [] => []
  | c :: cs => (readChar s c).2 :: roles (readChar s c).1 cs

/-- The state at the start of a command. -/
def start (sh : Shell) : State sh := ⟨sh.init, .bare .start⟩

theorem after_append (s : State sh) (t u : Text) : after s (t ++ u) = after (after s t) u := by
  induction t generalizing s with
  | nil => rfl
  | cons c cs ih => exact ih (readChar s c).1

theorem roles_append (s : State sh) (t u : Text) :
    roles s (t ++ u) = roles s t ++ roles (after s t) u := by
  induction t generalizing s with
  | nil => rfl
  | cons c cs ih =>
    rw [List.cons_append, roles, roles, after, ih, List.cons_append]

/-! ## Texts that stay in their place -/

/-- The role of a character that belongs to a word, or separates two. -/
def Role.isWordText {R : Type} : Role R → Bool
  | .text _ | .quote | .backslash | .blank => true
  | _ => false

/-- The same inside double quotes, where a quote would end them. -/
def Role.isQuotedText {R : Type} : Role R → Bool
  | .text _ | .backslash => true
  | _ => false

/-- Reading the text from `s` ends in `s'`, and all roles on the way satisfy `p`. -/
def Passes (p : Role sh.Reading → Bool) (s : State sh) (t : Text) (s' : State sh) : Prop :=
  (∀ r ∈ roles s t, p r = true) ∧ after s t = s'

@[simp] theorem passes_nil {p : Role sh.Reading → Bool} {s s' : State sh} :
    Passes p s [] s' ↔ s = s' := by
  simp [Passes, roles, after]

theorem passes_cons {p : Role sh.Reading → Bool} {s s' : State sh} {c : Char} {t : Text} :
    Passes p s (c :: t) s' ↔ p (readChar s c).2 = true ∧ Passes p (readChar s c).1 t s' := by
  simp [Passes, roles, after, and_assoc]

theorem Passes.append {p : Role sh.Reading → Bool} {s s₁ s₂ : State sh} {t u : Text}
    (h : Passes p s t s₁) (h' : Passes p s₁ u s₂) : Passes p s (t ++ u) s₂ := by
  obtain ⟨h_roles, rfl⟩ := h
  obtain ⟨h_roles', rfl⟩ := h'
  refine ⟨fun r h_r => ?_, after_append s t u⟩
  rw [roles_append] at h_r
  rcases List.mem_append.mp h_r with h_r | h_r
  · exact h_roles r h_r
  · exact h_roles' r h_r

/-- Outside quotes the text is only words, and whatever it opens it closes. -/
def ContributesBare (s : State sh) (t : Text) : Prop :=
  ∃ w, Passes Role.isWordText s t ⟨s.outer, .bare w⟩

/-- Inside double quotes it is only text. -/
def ContributesDouble (s : State sh) (t : Text) : Prop := Passes Role.isQuotedText s t s

/-- No character that the shell itself takes, at any place. -/
def Harmless (t : Text) : Prop := ∀ c ∈ t, isSpecial c = false

/-- A text inside double quotes: a backslash takes the next character along. -/
inductive DoubleText : Text → Prop
  | nil : DoubleText []
  | plain {c : Char} {t : Text} (h_quote : c ≠ '"') (h_backslash : c ≠ '\\') (h : DoubleText t) :
      DoubleText (c :: t)
  | escaped (c : Char) {t : Text} (h : DoubleText t) : DoubleText ('\\' :: c :: t)

/-- No quote, backslash or blank. -/
def isPlain (c : Char) : Bool := c != '\\' && c != '\'' && c != '"' && !isBlank c

/-- A text outside quotes, behind the part `w` of a word. -/
inductive BareText : Word → Text → Prop
  | nil (w : Word) : BareText w []
  | blank {w : Word} {c : Char} {t : Text} (h_c : isBlank c = true) (h : BareText .start t) :
      BareText w (c :: t)
  | plain {w : Word} {c : Char} {t : Text} (h_c : isPlain c = true)
      (h_comment : c = '#' → w ≠ .start) (h : BareText (w.next c) t) : BareText w (c :: t)
  | escaped {w : Word} (c : Char) {t : Text} (h : BareText .text t) :
      BareText w ('\\' :: c :: t)
  | single {w : Word} {body t : Text} (h_body : '\'' ∉ body) (h : BareText .text t) :
      BareText w ('\'' :: (body ++ '\'' :: t))
  | double {w : Word} {body t : Text} (h_body : DoubleText body) (h : BareText .text t) :
      BareText w ('"' :: (body ++ '"' :: t))

/-! ## The grammars and the reading agree -/

theorem Harmless.tail {c : Char} {t : Text} (h : Harmless (c :: t)) : Harmless t :=
  fun d h_d => h d (List.mem_cons_of_mem _ h_d)

theorem Harmless.ne_newline {t : Text} (h : Harmless t) {c : Char} (h_c : c ∈ t) : c ≠ '\n' := by
  rintro rfl
  have h_special := h '\n' h_c
  cases h_special

theorem Harmless.quoted {t : Text} (h : Harmless t) {c : Char} (h_c : c ∈ t) :
    isQuotedSpecial c = false := by
  have h_sub : "$`".toList ⊆ "|&;<>()$`\n".toList := by decide
  have h_special := h c h_c
  simp only [isSpecial, isQuotedSpecial, List.contains_eq_mem, decide_eq_false_iff_not]
    at h_special ⊢
  exact fun h_mem => h_special (h_sub h_mem)

section Steps

variable {o : sh.Outer} {w : Word} {c : Char}

theorem step_backslash : readChar (⟨o, .bare w⟩ : State sh) '\\' = (⟨o, .escape w⟩, .backslash) := rfl

theorem step_openSingle : readChar (⟨o, .bare w⟩ : State sh) '\'' = (⟨o, .single⟩, .quote) := rfl

theorem step_openDouble : readChar (⟨o, .bare w⟩ : State sh) '"' = (⟨o, .double⟩, .quote) := rfl

theorem step_blank (h : isBlank c = true) :
    readChar (⟨o, .bare w⟩ : State sh) c = (⟨o, .bare .start⟩, .blank) := by
  simp only [isBlank, Bool.or_eq_true, beq_iff_eq] at h
  rcases h with rfl | rfl <;> rfl

theorem step_plain (h : isPlain c = true) (h_comment : c = '#' → w ≠ .start)
    (h_special : isSpecial c = false) :
    readChar (⟨o, .bare w⟩ : State sh) c = (⟨o, .bare (w.next c)⟩, .text .bare) := by
  simp only [isPlain, Bool.and_eq_true, bne_iff_ne, Bool.not_eq_true'] at h
  obtain ⟨⟨⟨h_backslash, h_single⟩, h_double⟩, h_blank⟩ := h
  have h_no_comment : ¬ (c = '#' ∧ w = .start) := fun ⟨h_c, h_w⟩ => h_comment h_c h_w
  simp [readChar, stepBare, enter, h_backslash, h_single, h_double, h_blank, h_special, h_no_comment]

theorem step_comment :
    readChar (⟨o, .bare .start⟩ : State sh) '#' = (⟨o, .comment⟩, .comment) := rfl

theorem step_special (h : isSpecial c = true) :
    readChar (⟨o, .bare w⟩ : State sh) c =
      fromShell (w = .digits && (c == '<' || c == '>')) (sh.special o false c) := by
  have h_c : c ≠ '\\' ∧ c ≠ '\'' ∧ c ≠ '"' ∧ c ≠ '#' ∧ isBlank c = false := by
    refine ⟨?_, ?_, ?_, ?_, ?_⟩
    iterate 4
      rintro rfl
      cases h
    by_contra h_blank
    simp only [isBlank, Bool.not_eq_false, Bool.or_eq_true, beq_iff_eq] at h_blank
    rcases h_blank with rfl | rfl <;> cases h
  simp [readChar, stepBare, h, h_c]

theorem step_escaped (h : c ≠ '\n') :
    readChar (⟨o, .escape w⟩ : State sh) c = (⟨o, .bare .text⟩, .text .escaped) := by
  simp [readChar, enter, h]

theorem step_closeSingle : readChar (⟨o, .single⟩ : State sh) '\'' = (⟨o, .bare .text⟩, .quote) := rfl

theorem step_single (h : c ≠ '\'') :
    readChar (⟨o, .single⟩ : State sh) c = (⟨o, .single⟩, .text .single) := by
  simp [readChar, enter, h]

theorem step_closeDouble : readChar (⟨o, .double⟩ : State sh) '"' = (⟨o, .bare .text⟩, .quote) := rfl

theorem step_doubleBackslash :
    readChar (⟨o, .double⟩ : State sh) '\\' = (⟨o, .doubleEscape⟩, .backslash) := rfl

theorem step_double (h_quote : c ≠ '"') (h_backslash : c ≠ '\\')
    (h_special : isQuotedSpecial c = false) :
    readChar (⟨o, .double⟩ : State sh) c = (⟨o, .double⟩, .text .double) := by
  simp [readChar, stepDouble, enter, h_quote, h_backslash, h_special]

theorem step_doubleEscaped (h : c ≠ '\n') :
    ∃ q, readChar (⟨o, .doubleEscape⟩ : State sh) c = (⟨o, .double⟩, .text q) := by
  by_cases h_c : isQuotedEscape c = true
  · exact ⟨.escaped, by simp [readChar, enter, h, h_c]⟩
  · exact ⟨.double, by simp [readChar, enter, h, h_c]⟩

end Steps

/-- A body without the quote stays in single quotes. -/
theorem passes_single {o : sh.Outer} {body : Text} (h : '\'' ∉ body) :
    Passes Role.isWordText (⟨o, .single⟩ : State sh) body ⟨o, .single⟩ := by
  induction body with
  | nil => exact passes_nil.mpr rfl
  | cons c cs ih =>
    have h_c : c ≠ '\'' := fun h_eq => h (h_eq ▸ List.mem_cons_self)
    rw [passes_cons, step_single h_c]
    exact ⟨rfl, ih fun h_mem => h (List.mem_cons_of_mem _ h_mem)⟩

/-- Single quotes that a text leaves were closed by it. -/
theorem exists_closeSingle {o : sh.Outer} {t : Text} {s' : State sh}
    (h : Passes Role.isWordText (⟨o, .single⟩ : State sh) t s') (h_s' : s'.mode ≠ .single) :
    ∃ body u, t = body ++ '\'' :: u ∧ '\'' ∉ body ∧
      Passes Role.isWordText (⟨o, .bare .text⟩ : State sh) u s' := by
  induction t with
  | nil => exact absurd (congrArg State.mode (passes_nil.mp h)).symm h_s'
  | cons c cs ih =>
    rw [passes_cons] at h
    by_cases h_c : c = '\''
    · subst h_c
      rw [step_closeSingle] at h
      exact ⟨[], cs, rfl, List.not_mem_nil, h.2⟩
    · rw [step_single h_c] at h
      obtain ⟨body, u, rfl, h_body, h_u⟩ := ih h.2
      refine ⟨c :: body, u, rfl, ?_, h_u⟩
      rintro (_ | ⟨_, h_mem⟩)
      · exact h_c rfl
      · exact h_body h_mem

theorem DoubleText.passes {o : sh.Outer} {t : Text} (h : DoubleText t) (h_t : Harmless t) :
    Passes Role.isQuotedText (⟨o, .double⟩ : State sh) t ⟨o, .double⟩ := by
  induction h with
  | nil => exact passes_nil.mpr rfl
  | plain h_quote h_backslash _ ih =>
    rw [passes_cons, step_double h_quote h_backslash (h_t.quoted List.mem_cons_self)]
    exact ⟨rfl, ih h_t.tail⟩
  | escaped c _ ih =>
    have h_c : c ≠ '\n' := h_t.tail.ne_newline List.mem_cons_self
    obtain ⟨q, h_step⟩ := step_doubleEscaped (o := o) h_c
    rw [passes_cons, step_doubleBackslash, passes_cons, h_step]
    exact ⟨rfl, rfl, ih h_t.tail.tail⟩

/-- Text inside double quotes is word text too. -/
theorem isWordText_of_isQuotedText {R : Type} {r : Role R} (h : r.isQuotedText = true) :
    r.isWordText = true := by
  cases r <;> first | rfl | cases h

theorem Passes.word {s s' : State sh} {t : Text} (h : Passes Role.isQuotedText s t s') :
    Passes Role.isWordText s t s' :=
  ⟨fun r h_r => isWordText_of_isQuotedText (h.1 r h_r), h.2⟩

/-- Reading inside double quotes without meeting their end. -/
theorem doubleText_of_passes {o : sh.Outer} : ∀ {t : Text}, Harmless t →
    Passes Role.isQuotedText (⟨o, .double⟩ : State sh) t ⟨o, .double⟩ → DoubleText t
  | [], _, _ => .nil
  | c :: t, h_t, h => by
    rw [passes_cons] at h
    by_cases h_quote : c = '"'
    · subst h_quote
      cases h.1
    by_cases h_backslash : c = '\\'
    · subst h_backslash
      rw [step_doubleBackslash] at h
      -- the backslash takes the next character along
      match t, h_t, h.2 with
      | [], _, h_end => cases congrArg State.mode (passes_nil.mp h_end)
      | d :: t, h_t, h_end =>
        have h_d : d ≠ '\n' := h_t.tail.ne_newline List.mem_cons_self
        obtain ⟨q, h_step⟩ := step_doubleEscaped (o := o) h_d
        rw [passes_cons, h_step] at h_end
        exact .escaped d (doubleText_of_passes h_t.tail.tail h_end.2)
    · rw [step_double h_quote h_backslash (h_t.quoted List.mem_cons_self)] at h
      exact .plain h_quote h_backslash (doubleText_of_passes h_t.tail h.2)

/-- Double quotes that a text leaves were closed by it. -/
theorem exists_closeDouble {o : sh.Outer} {s' : State sh} (h_s' : ∃ w, s'.mode = .bare w) :
    ∀ {t : Text}, Harmless t → Passes Role.isWordText (⟨o, .double⟩ : State sh) t s' →
      ∃ body u, t = body ++ '"' :: u ∧ DoubleText body ∧
        Passes Role.isWordText (⟨o, .bare .text⟩ : State sh) u s'
  | [], _, h => by
    obtain ⟨w, h_w⟩ := h_s'
    rw [← passes_nil.mp h] at h_w
    cases h_w
  | c :: t, h_t, h => by
    rw [passes_cons] at h
    by_cases h_quote : c = '"'
    · subst h_quote
      rw [step_closeDouble] at h
      exact ⟨[], t, rfl, .nil, h.2⟩
    by_cases h_backslash : c = '\\'
    · subst h_backslash
      rw [step_doubleBackslash] at h
      match t, h_t, h.2 with
      | [], _, h_end =>
        obtain ⟨w, h_w⟩ := h_s'
        rw [← passes_nil.mp h_end] at h_w
        cases h_w
      | d :: t, h_t, h_end =>
        have h_d : d ≠ '\n' := h_t.tail.ne_newline List.mem_cons_self
        obtain ⟨q, h_step⟩ := step_doubleEscaped (o := o) h_d
        rw [passes_cons, h_step] at h_end
        obtain ⟨body, u, rfl, h_body, h_u⟩ := exists_closeDouble h_s' h_t.tail.tail h_end.2
        exact ⟨'\\' :: d :: body, u, rfl, .escaped d h_body, h_u⟩
    · rw [step_double h_quote h_backslash (h_t.quoted List.mem_cons_self)] at h
      obtain ⟨body, u, rfl, h_body, h_u⟩ := exists_closeDouble h_s' h_t.tail h.2
      exact ⟨c :: body, u, rfl, .plain h_quote h_backslash h_body, h_u⟩

/-- What the grammar derives outside quotes is read as words. -/
theorem BareText.passes {o : sh.Outer} {w : Word} {t : Text} (h : BareText w t)
    (h_t : Harmless t) :
    ∃ w', Passes Role.isWordText (⟨o, .bare w⟩ : State sh) t ⟨o, .bare w'⟩ := by
  induction h with
  | nil w => exact ⟨w, passes_nil.mpr rfl⟩
  | blank h_c _ ih =>
    obtain ⟨w', h_w'⟩ := ih h_t.tail
    refine ⟨w', ?_⟩
    rw [passes_cons, step_blank h_c]
    exact ⟨rfl, h_w'⟩
  | plain h_c h_comment _ ih =>
    obtain ⟨w', h_w'⟩ := ih h_t.tail
    refine ⟨w', ?_⟩
    rw [passes_cons, step_plain h_c h_comment (h_t _ List.mem_cons_self)]
    exact ⟨rfl, h_w'⟩
  | escaped c _ ih =>
    obtain ⟨w', h_w'⟩ := ih h_t.tail.tail
    refine ⟨w', ?_⟩
    have h_c : c ≠ '\n' := h_t.tail.ne_newline List.mem_cons_self
    rw [passes_cons, step_backslash, passes_cons, step_escaped h_c]
    exact ⟨rfl, rfl, h_w'⟩
  | @single w body t h_body _ ih =>
    have h_rest : Harmless ('\'' :: t) := fun c h_c =>
      h_t c (List.mem_cons_of_mem _ (List.mem_append_right _ h_c))
    obtain ⟨w', h_w'⟩ := ih h_rest.tail
    refine ⟨w', ?_⟩
    rw [passes_cons, step_openSingle]
    refine ⟨rfl, (passes_single h_body).append ?_⟩
    rw [passes_cons, step_closeSingle]
    exact ⟨rfl, h_w'⟩
  | @double w body t h_body _ ih =>
    have h_inner : Harmless body := fun c h_c =>
      h_t c (List.mem_cons_of_mem _ (List.mem_append_left _ h_c))
    have h_rest : Harmless ('"' :: t) := fun c h_c =>
      h_t c (List.mem_cons_of_mem _ (List.mem_append_right _ h_c))
    obtain ⟨w', h_w'⟩ := ih h_rest.tail
    refine ⟨w', ?_⟩
    rw [passes_cons, step_openDouble]
    refine ⟨rfl, (h_body.passes h_inner).word.append ?_⟩
    rw [passes_cons, step_closeDouble]
    exact ⟨rfl, h_w'⟩

/-- What is read as words outside quotes has a derivation. -/
theorem bareText_of_passes {o : sh.Outer} {w w' : Word} {t : Text} (h_t : Harmless t)
    (h : Passes Role.isWordText (⟨o, .bare w⟩ : State sh) t ⟨o, .bare w'⟩) : BareText w t := by
  -- on the length: a quoted part is taken off in one piece
  induction h_n : t.length using Nat.strongRecOn generalizing w t with
  | ind n ih =>
  subst h_n
  match t, h_t, h, ih with
  | [], _, _, _ => exact .nil w
  | c :: t, h_t, h, ih =>
    have h_tail : t.length < (c :: t).length := Nat.lt_succ_self _
    rw [passes_cons] at h
    by_cases h_blank : isBlank c = true
    · rw [step_blank h_blank] at h
      exact .blank h_blank (ih _ h_tail h_t.tail h.2 rfl)
    by_cases h_backslash : c = '\\'
    · subst h_backslash
      rw [step_backslash] at h
      match t, h_t, h.2, h_tail with
      | [], _, h_end, _ => cases congrArg State.mode (passes_nil.mp h_end)
      | d :: t, h_t, h_end, h_tail =>
        have h_short : t.length < (d :: t).length := Nat.lt_succ_self _
        have h_d : d ≠ '\n' := h_t.tail.ne_newline List.mem_cons_self
        rw [passes_cons, step_escaped h_d] at h_end
        exact .escaped d (ih _ (Nat.lt_trans h_short h_tail) h_t.tail.tail h_end.2 rfl)
    by_cases h_single : c = '\''
    · subst h_single
      rw [step_openSingle] at h
      obtain ⟨body, u, h_eq, h_body, h_u⟩ := exists_closeSingle h.2 (by simp)
      have h_rest : Harmless u := fun c h_c =>
        h_t.tail c (h_eq ▸ List.mem_append_right _ (List.mem_cons_of_mem _ h_c))
      have h_len : u.length < ('\'' :: t).length := by
        rw [h_eq]
        simp only [List.length_cons, List.length_append]
        omega
      rw [h_eq]
      exact .single h_body (ih _ h_len h_rest h_u rfl)
    by_cases h_double : c = '"'
    · subst h_double
      rw [step_openDouble] at h
      obtain ⟨body, u, h_eq, h_body, h_u⟩ := exists_closeDouble ⟨w', rfl⟩ h_t.tail h.2
      have h_rest : Harmless u := fun c h_c =>
        h_t.tail c (h_eq ▸ List.mem_append_right _ (List.mem_cons_of_mem _ h_c))
      have h_len : u.length < ('"' :: t).length := by
        rw [h_eq]
        simp only [List.length_cons, List.length_append]
        omega
      rw [h_eq]
      exact .double h_body (ih _ h_len h_rest h_u rfl)
    have h_plain : isPlain c = true := by
      simp [isPlain, h_blank, h_backslash, h_single, h_double]
    have h_comment : c = '#' → w ≠ .start := by
      rintro rfl rfl
      rw [step_comment] at h
      cases h.1
    rw [step_plain h_plain h_comment (h_t _ List.mem_cons_self)] at h
    exact .plain h_plain h_comment (ih _ h_tail h_t.tail h.2 rfl)

theorem contributesBare_iff {o : sh.Outer} {w : Word} {t : Text} (h_t : Harmless t) :
    ContributesBare (⟨o, .bare w⟩ : State sh) t ↔ BareText w t :=
  ⟨fun ⟨_, h⟩ => bareText_of_passes h_t h, fun h => h.passes h_t⟩

theorem contributesDouble_iff {o : sh.Outer} {t : Text} (h_t : Harmless t) :
    ContributesDouble (⟨o, .double⟩ : State sh) t ↔ DoubleText t :=
  ⟨doubleText_of_passes h_t, fun h => h.passes h_t⟩

end ShTokens
