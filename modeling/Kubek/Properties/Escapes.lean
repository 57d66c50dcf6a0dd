/-
  Kubek.Properties.Escapes

  What the writer escapes the reader takes back.

  An escaped text is a list of tokens (`Token t c`): a unit that is no backslash, or a
  backslash and one more unit. `unescape`, the search for the end of the key and the count
  of backslashes at the end all go through a text token by token, so each needs one lemma
  about a token and one induction over the text.
-/

import Kubek.Properties.Document

namespace Kubek.Properties

/-! ## Line ends -/

/-- No line end in the text. -/
def OneLine (text : Text) : Prop := LF ∉ text ∧ CR ∉ text

instance (text : Text) : Decidable (OneLine text) :=
  inferInstanceAs (Decidable (LF ∉ text ∧ CR ∉ text))

theorem oneLine_nil : OneLine [] := ⟨List.not_mem_nil, List.not_mem_nil⟩

theorem oneLine_cons {c : CodeUnit} {text : Text} :
    OneLine (c :: text) ↔ c ≠ LF ∧ c ≠ CR ∧ OneLine text := by
  simp only [OneLine, List.mem_cons, not_or]
  constructor
  · rintro ⟨⟨h1, h2⟩, h3, h4⟩
    exact ⟨Ne.symm h1, Ne.symm h3, h2, h4⟩
  · rintro ⟨h1, h3, h2, h4⟩
    exact ⟨⟨Ne.symm h1, h2⟩, Ne.symm h3, h4⟩

theorem oneLine_append {xs ys : Text} : OneLine (xs ++ ys) ↔ OneLine xs ∧ OneLine ys := by
  simp only [OneLine, List.mem_append, not_or]
  tauto

attribute [local simp] splitFrom in
theorem splitFrom_ne_nil (afterCR : Bool) (text : Text) : splitFrom afterCR text ≠ [] := by
  induction text generalizing afterCR with
  | nil => simp [splitFrom]
  | cons c text ih =>
    simp only [splitFrom]
    split
    · split
      · exact ih false
      · simp
    · split
      · simp
      · split
        · simp
        · simp

/-- Splitting leaves no line end in a line. -/
theorem oneLine_of_mem_splitFrom {afterCR : Bool} {text line : Text}
    (h : line ∈ splitFrom afterCR text) : OneLine line := by
  induction text generalizing afterCR line with
  | nil =>
    rw [splitFrom, List.mem_singleton] at h
    rw [h]
    exact oneLine_nil
  | cons c text ih =>
    simp only [splitFrom] at h
    split at h
    · split at h
      · exact ih h
      · obtain rfl | h := List.mem_cons.mp h
        · exact oneLine_nil
        · exact ih h
    · rename_i h_lf
      split at h
      · obtain rfl | h := List.mem_cons.mp h
        · exact oneLine_nil
        · exact ih h
      · rename_i h_cr
        split at h
        · rw [List.mem_singleton] at h
          rw [h, oneLine_cons]
          exact ⟨h_lf, h_cr, oneLine_nil⟩
        · rename_i line' rest h_split
          obtain rfl | h := List.mem_cons.mp h
          · rw [oneLine_cons]
            exact ⟨h_lf, h_cr, ih (h_split ▸ List.mem_cons_self)⟩
          · exact ih (h_split ▸ List.mem_cons_of_mem _ h)

/-- The two line ends a document is written with. -/
def IsEol (eol : Text) : Prop := eol = [LF] ∨ eol = [CR, LF]

theorem splitLines_oneLine {line : Text} (h : OneLine line) : splitLines line = [line] := by
  induction line with
  | nil => rfl
  | cons c line ih =>
    obtain ⟨h_lf, h_cr, h_line⟩ := oneLine_cons.mp h
    have h_rest : splitFrom false line = [line] := ih h_line
    rw [splitLines, splitFrom, if_neg h_lf, if_neg h_cr, h_rest]

theorem splitLines_append {eol line : Text} (h_eol : IsEol eol) (h : OneLine line) (rest : Text) :
    splitLines (line ++ (eol ++ rest)) = line :: splitLines rest := by
  induction line with
  | nil =>
    obtain rfl | rfl := h_eol
    · simp [splitLines, splitFrom]
    · simp [splitLines, splitFrom, show CR ≠ LF by decide]
  | cons c line ih =>
    obtain ⟨h_lf, h_cr, h_line⟩ := oneLine_cons.mp h
    have h_rest : splitFrom false (line ++ (eol ++ rest)) = line :: splitFrom false rest :=
      ih h_line
    rw [splitLines, List.cons_append, splitFrom, if_neg h_lf, if_neg h_cr, h_rest]
    rfl

/-- Lines that are joined are read again. -/
theorem splitLines_joinWith {eol : Text} (h_eol : IsEol eol) {lines : List Text}
    (h : ∀ line ∈ lines, OneLine line) (h_ne : lines ≠ []) :
    splitLines (joinWith eol lines) = lines := by
  induction lines with
  | nil => exact absurd rfl h_ne
  | cons line rest ih =>
    have h_line := h line List.mem_cons_self
    cases rest with
    | nil =>
      rw [joinWith, List.intercalate_singleton]
      exact splitLines_oneLine h_line
    | cons next more =>
      have h_rest := ih (fun l h_l => h l (List.mem_cons_of_mem _ h_l)) (by simp)
      rw [joinWith, List.intercalate_cons_cons, List.append_assoc, splitLines_append h_eol h_line]
      rw [← joinWith, h_rest]

/-! ## Tokens -/

/-- The token `t` is read as the unit `c`. -/
inductive Token : Text → CodeUnit → Prop
  | plain {c : CodeUnit} (h : c ≠ BACKSLASH) : Token [c] c
  | escape {x c : CodeUnit} (h_u : x ≠ LETTER_U) (h : escaped x = c) : Token [BACKSLASH, x] c

section Token

variable {t text : Text} {c : CodeUnit}

theorem unescapeFrom_token (h : Token t c) (text : Text) :
    unescapeFrom 0 (t ++ text) = c :: unescapeFrom 0 text := by
  cases h with
  | plain h => simp [unescapeFrom, h]
  | escape h_u h =>
    simp [unescapeFrom, h_u, h]

/-- A unit at the end decides, with the backslashes before it. -/
theorem endsWithContinuation_concat (text : Text) (c : CodeUnit) :
    endsWithContinuation (text ++ [c]) =
      if c = BACKSLASH then !endsWithContinuation text else false := by
  rw [endsWithContinuation, List.reverse_append, List.reverse_singleton, List.singleton_append,
    List.takeWhile_cons]
  by_cases h : c = BACKSLASH
  · rw [if_pos (by simp [h]), if_pos h, endsWithContinuation, List.length_cons]
    rw [Bool.eq_iff_iff]
    simp only [beq_iff_eq, Bool.not_eq_true', beq_eq_false_iff_ne, ne_eq]
    omega
  · rw [if_neg (by simp [h]), if_neg h]
    rfl

theorem endsWithContinuation_token (h : Token t c) (h_text : endsWithContinuation text = false) :
    endsWithContinuation (text ++ t) = false := by
  cases h with
  | plain h => rw [endsWithContinuation_concat, if_neg h]
  | @escape x c h_u h =>
    rw [show text ++ [BACKSLASH, x] = (text ++ [BACKSLASH]) ++ [x] by simp,
      endsWithContinuation_concat, endsWithContinuation_concat, if_pos rfl, h_text]
    split <;> rfl

end Token

/-- A text of tokens, and the units they are read as. -/
def Tokens (ts : List Text) (units : Text) : Prop := List.Forall₂ Token ts units

section Tokens

variable {ts : List Text} {units text : Text}

theorem unescapeFrom_tokens (h : Tokens ts units) : unescapeFrom 0 ts.flatten = units := by
  induction h with
  | nil => rfl
  | cons h_t _ ih => rw [List.flatten_cons, unescapeFrom_token h_t, ih]

/-- Without a backslash there is nothing to read back. -/
theorem unescapeFrom_of_not_contains (h : text.contains BACKSLASH = false) :
    unescapeFrom 0 text = text := by
  induction text with
  | nil => rfl
  | cons c text ih =>
    rw [List.contains_cons, Bool.or_eq_false_iff] at h
    have h_c : c ≠ BACKSLASH := fun h_eq => by simp [h_eq] at h
    have h_head := unescapeFrom_token (.plain h_c) text
    rwa [ih h.2] at h_head

theorem unescape_tokens (h : Tokens ts units) : unescape ts.flatten = units := by
  rw [unescape]
  split
  · exact unescapeFrom_tokens h
  · rename_i h_contains
    have h_plain := unescapeFrom_of_not_contains ((Bool.not_eq_true _).mp h_contains)
    rwa [unescapeFrom_tokens h, eq_comm] at h_plain

theorem endsWithContinuation_tokens (h : Tokens ts units)
    (h_text : endsWithContinuation text = false) :
    endsWithContinuation (text ++ ts.flatten) = false := by
  induction h generalizing text with
  | nil => simpa using h_text
  | cons h_t _ ih =>
    rw [List.flatten_cons, ← List.append_assoc]
    exact ih (endsWithContinuation_token h_t h_text)

end Tokens

/-! ## The writer's tokens -/

/-- What `escapeCommon` makes of a unit. -/
def commonToken (c : CodeUnit) : Text :=
  if c = BACKSLASH then [BACKSLASH, BACKSLASH]
  else if c = LF then [BACKSLASH, LETTER_N]
  else if c = CR then [BACKSLASH, LETTER_R]
  else if c = TAB then [BACKSLASH, LETTER_T]
  else if c = FF then [BACKSLASH, LETTER_F]
  else [c]

/-- What `escapeKey` makes of a unit that is not the first. -/
def keyToken (c : CodeUnit) : Text :=
  if c = SPACE ∨ c = EQUALS ∨ c = COLON then [BACKSLASH, c] else commonToken c

/-- The first unit may get a backslash of its own. -/
def headed (first : CodeUnit → Bool) (token : CodeUnit → Text) : Text → List Text
  | [] => []
  | c :: text => (if first c then [BACKSLASH, c] else token c) :: text.map token

/-- The units with a letter of their own, and all others. -/
theorem special_cases {P : CodeUnit → Prop} (backslash : P BACKSLASH) (lf : P LF)
    (cr : P CR) (tab : P TAB) (ff : P FF)
    (plain : ∀ c, c ≠ BACKSLASH → c ≠ LF → c ≠ CR → c ≠ TAB → c ≠ FF → P c) (c : CodeUnit) :
    P c := by
  by_cases h1 : c = BACKSLASH
  · exact h1 ▸ backslash
  by_cases h2 : c = LF
  · exact h2 ▸ lf
  by_cases h3 : c = CR
  · exact h3 ▸ cr
  by_cases h4 : c = TAB
  · exact h4 ▸ tab
  by_cases h5 : c = FF
  · exact h5 ▸ ff
  · exact plain c h1 h2 h3 h4 h5

theorem commonToken_plain {c : CodeUnit} (h1 : c ≠ BACKSLASH) (h2 : c ≠ LF) (h3 : c ≠ CR)
    (h4 : c ≠ TAB) (h5 : c ≠ FF) : commonToken c = [c] := by
  simp [commonToken, h1, h2, h3, h4, h5]

theorem token_common (c : CodeUnit) : Token (commonToken c) c := by
  induction c using special_cases with
  | backslash => exact .escape (x := BACKSLASH) (by decide) (by decide)
  | lf => exact .escape (x := LETTER_N) (by decide) (by decide)
  | cr => exact .escape (x := LETTER_R) (by decide) (by decide)
  | tab => exact .escape (x := LETTER_T) (by decide) (by decide)
  | ff => exact .escape (x := LETTER_F) (by decide) (by decide)
  | plain c h1 h2 h3 h4 h5 =>
    rw [commonToken_plain h1 h2 h3 h4 h5]
    exact .plain h1

/-- A separator, or a unit that a comment starts with, after a backslash. -/
theorem token_separator {c : CodeUnit}
    (h : c = SPACE ∨ c = EQUALS ∨ c = COLON ∨ c = HASH ∨ c = BANG) : Token [BACKSLASH, c] c := by
  obtain rfl | rfl | rfl | rfl | rfl := h <;> exact .escape (by decide) (by decide)

theorem token_key (c : CodeUnit) : Token (keyToken c) c := by
  rw [keyToken]
  split
  · rename_i h
    exact token_separator (by tauto)
  · exact token_common c

theorem tokens_headed {first : CodeUnit → Bool} {token : CodeUnit → Text}
    (h_token : ∀ c, Token (token c) c) (h_first : ∀ c, first c = true → Token [BACKSLASH, c] c)
    (text : Text) : Tokens (headed first token text) text := by
  have h_rest : ∀ text : Text, Tokens (text.map token) text := by
    intro text
    induction text with
    | nil => exact .nil
    | cons c text ih => exact .cons (h_token c) ih
  cases text with
  | nil => exact .nil
  | cons c text =>
    refine .cons ?_ (h_rest text)
    split
    · rename_i h
      exact h_first c h
    · exact h_token c

theorem escapeCommon_eq (text : Text) : escapeCommon text = (text.map commonToken).flatten := by
  simp only [escapeCommon, replaceAll, List.flatMap_assoc, ← List.flatMap_def]
  congr 1
  funext c
  -- The later replacements find nothing to replace in what the earlier ones put in.
  induction c using special_cases with
  | backslash => decide
  | lf => decide
  | cr => decide
  | tab => decide
  | ff => decide
  | plain c h1 h2 h3 h4 h5 => simp [commonToken, h1, h2, h3, h4, h5]

/-- White space that the reader of a line takes off a key and the writer leaves as it is. -/
def lostAtStart (c : CodeUnit) : Bool :=
  isTrimmed c && !(c == SPACE || c == TAB || c == FF || c == LF || c == CR)

def keyTokens (key : Text) : List Text := headed (fun c => c == HASH || c == BANG) keyToken key

def valueTokens (value : Text) : List Text := headed (· == SPACE) commonToken value

theorem flatMap_commonToken (c : CodeUnit) :
    (commonToken c).flatMap (fun c =>
      if c = SPACE ∨ c = EQUALS ∨ c = COLON then [BACKSLASH, c] else [c]) = keyToken c := by
  induction c using special_cases with
  | backslash => decide
  | lf => decide
  | cr => decide
  | tab => decide
  | ff => decide
  | plain c h1 h2 h3 h4 h5 => simp [keyToken, commonToken_plain h1 h2 h3 h4 h5]

/-- A token is the unit itself or begins with a backslash. -/
theorem token_head {t : Text} {c : CodeUnit} (h : Token t c) :
    t = [c] ∨ ∃ x, t = [BACKSLASH, x] := by
  cases h with
  | plain _ => exact .inl rfl
  | @escape x _ _ _ => exact .inr ⟨x, rfl⟩

theorem escapeKey_eq (key : Text) : escapeKey key = (keyTokens key).flatten := by
  have h_all : (escapeCommon key).flatMap (fun c =>
      if c = SPACE ∨ c = EQUALS ∨ c = COLON then [BACKSLASH, c] else [c]) =
      (key.map keyToken).flatten := by
    rw [escapeCommon_eq, ← List.flatMap_def, ← List.flatMap_def, List.flatMap_assoc]
    congr 1
    funext c
    exact flatMap_commonToken c
  rw [escapeKey, h_all]
  cases key with
  | nil => rfl
  | cons c key =>
    by_cases h_c : c = HASH ∨ c = BANG
    · have h_token : keyToken c = [c] := by obtain rfl | rfl := h_c <;> decide
      simp [keyTokens, headed, h_token, h_c]
    · obtain h_token | ⟨x, h_token⟩ := token_head (token_key c)
      · simp [keyTokens, headed, h_token, h_c]
      · simp [keyTokens, headed, h_token, h_c, show ¬ (BACKSLASH = HASH ∨ BACKSLASH = BANG) by decide]

theorem escapeValue_eq (value : Text) : escapeValue value = (valueTokens value).flatten := by
  rw [escapeValue, escapeCommon_eq]
  cases value with
  | nil => rfl
  | cons c value =>
    by_cases h_c : c = SPACE
    · subst h_c
      simp [valueTokens, headed, show commonToken SPACE = [SPACE] by decide]
    · obtain h_token | ⟨x, h_token⟩ := token_head (token_common c)
      · simp [valueTokens, headed, h_token, h_c]
      · simp [valueTokens, headed, h_token, h_c, show BACKSLASH ≠ SPACE by decide]

theorem tokens_key (key : Text) : Tokens (keyTokens key) key :=
  tokens_headed token_key (fun c h => token_separator (by simp at h; tauto)) key

theorem tokens_value (value : Text) : Tokens (valueTokens value) value :=
  tokens_headed token_common (fun c h => token_separator (by simp at h; tauto)) value

/-! ## A written entry -/

section Written

variable {t text : Text} {c : CodeUnit} {key value : Text}

/-- A unit that stands for itself in a key is no separator, and nothing a line begins with
    otherwise. -/
theorem keyToken_eq_self (h : keyToken c = [c]) :
    ¬ (c = EQUALS ∨ c = COLON ∨ isBlank c = true) ∧ c ≠ LF ∧ c ≠ CR ∧ c ≠ BACKSLASH := by
  by_cases h_sep : c = SPACE ∨ c = EQUALS ∨ c = COLON
  · simp [keyToken, h_sep] at h
  · rw [keyToken, if_neg h_sep] at h
    induction c using special_cases with
    | backslash => cases h
    | lf => cases h
    | cr => cases h
    | tab => cases h
    | ff => cases h
    | plain c h1 h2 h3 h4 h5 =>
      refine ⟨?_, h2, h3, h1⟩
      simp only [isBlank, Bool.or_eq_true, beq_iff_eq]
      tauto

theorem commonToken_eq_self (h : commonToken c = [c]) :
    c ≠ LF ∧ c ≠ CR ∧ c ≠ TAB ∧ c ≠ FF := by
  induction c using special_cases with
  | backslash => cases h
  | lf => cases h
  | cr => cases h
  | tab => cases h
  | ff => cases h
  | plain c h1 h2 h3 h4 h5 => exact ⟨h2, h3, h4, h5⟩

theorem oneLine_commonToken (c : CodeUnit) : OneLine (commonToken c) := by
  induction c using special_cases with
  | backslash => decide
  | lf => decide
  | cr => decide
  | tab => decide
  | ff => decide
  | plain c h1 h2 h3 h4 h5 =>
    rw [commonToken_plain h1 h2 h3 h4 h5, oneLine_cons]
    exact ⟨h2, h3, oneLine_nil⟩

theorem oneLine_keyToken (c : CodeUnit) : OneLine (keyToken c) := by
  rw [keyToken]
  split
  · rename_i h
    obtain rfl | rfl | rfl := h <;> decide
  · exact oneLine_commonToken c

theorem oneLine_headed {first : CodeUnit → Bool} {token : CodeUnit → Text}
    (h_token : ∀ c, OneLine (token c)) (h_first : ∀ c, first c = true → OneLine [BACKSLASH, c])
    (text : Text) : OneLine (headed first token text).flatten := by
  have h_rest : ∀ text : Text, OneLine (text.map token).flatten := by
    intro text
    induction text with
    | nil => exact oneLine_nil
    | cons c text ih =>
      rw [List.map_cons, List.flatten_cons, oneLine_append]
      exact ⟨h_token c, ih⟩
  cases text with
  | nil => exact oneLine_nil
  | cons c text =>
    rw [headed, List.flatten_cons, oneLine_append]
    refine ⟨?_, h_rest text⟩
    split
    · rename_i h
      exact h_first c h
    · exact h_token c

theorem oneLine_escapeKey (key : Text) : OneLine (escapeKey key) := by
  rw [escapeKey_eq]
  refine oneLine_headed oneLine_keyToken (fun c h => ?_) key
  simp only [Bool.or_eq_true, beq_iff_eq] at h
  obtain rfl | rfl := h <;> decide

theorem oneLine_escapeValue (value : Text) : OneLine (escapeValue value) := by
  rw [escapeValue_eq]
  refine oneLine_headed oneLine_commonToken (fun c h => ?_) value
  rw [beq_iff_eq] at h
  rw [h]
  decide

/-! ### The key of it -/

theorem splitKey_token (h : Token t c)
    (h_sep : t = [c] → ¬ (c = EQUALS ∨ c = COLON ∨ isBlank c = true)) (h_text : text ≠ []) :
    splitKey (t ++ text) = (t ++ (splitKey text).1, (splitKey text).2) := by
  cases h with
  | plain h =>
    cases text with
    | nil => exact absurd rfl h_text
    | cons d text => rw [List.singleton_append, splitKey, if_neg h, if_neg (h_sep rfl)]; rfl
  | escape h_u h => rw [List.cons_append, List.singleton_append, splitKey, if_pos rfl]; rfl

/-- The tokens of a key go before the separator. -/
theorem splitKey_tokens {ts : List Text} {units : Text} (h : Tokens ts units)
    (h_sep : ∀ c, [c] ∈ ts → ¬ (c = EQUALS ∨ c = COLON ∨ isBlank c = true)) (rest : Text) :
    splitKey (ts.flatten ++ EQUALS :: rest) = (ts.flatten, EQUALS :: rest) := by
  induction h with
  | nil =>
    cases rest with
    | nil => simp [splitKey]
    | cons c rest => simp [splitKey, show EQUALS ≠ BACKSLASH by decide]
  | @cons t c ts units h_t _ ih =>
    have h_here : t = [c] → ¬ (c = EQUALS ∨ c = COLON ∨ isBlank c = true) := fun h_eq =>
      h_sep c (h_eq ▸ List.mem_cons_self)
    have h_rest := ih fun c h_c => h_sep c (List.mem_cons_of_mem _ h_c)
    rw [List.flatten_cons, List.append_assoc, splitKey_token h_t h_here (by simp), h_rest]

/-- Nothing in an escaped key separates it from its value. -/
theorem plain_of_mem_keyTokens (h : [c] ∈ keyTokens key) : keyToken c = [c] := by
  have h_map : ∀ text : Text, [c] ∈ text.map keyToken → keyToken c = [c] := by
    intro text h_mem
    obtain ⟨d, -, h_d⟩ := List.mem_map.mp h_mem
    obtain h_plain | ⟨x, h_esc⟩ := token_head (token_key d)
    · have h_eq : d = c := by simpa [h_plain] using h_d
      exact h_eq ▸ h_plain
    · simp [h_esc] at h_d
  cases key with
  | nil => cases h
  | cons d key =>
    rw [keyTokens, headed] at h
    obtain h_head | h_mem := List.mem_cons.mp h
    · split at h_head
      · cases h_head
      · exact h_map [d] (by simp [h_head])
    · exact h_map key h_mem

/-! ### The start of it -/

/-- What a line of an entry may begin with. -/
def StartsEntry (text : Text) : Prop :=
  ∃ c rest, text = c :: rest ∧ isTrimmed c = false ∧ c ≠ HASH ∧ c ≠ BANG

/-- A key whose first unit the reader of a line would take off. -/
def losesStart (key : Text) : Bool :=
  match key with
  | [] => false
  | c :: _ => lostAtStart c

theorem startsEntry_written (value : Text) (h : losesStart key = false) :
    StartsEntry (escapeKey key ++ EQUALS :: escapeValue value) := by
  rw [escapeKey_eq]
  cases key with
  | nil => exact ⟨EQUALS, _, rfl, by decide, by decide, by decide⟩
  | cons c key =>
    rw [keyTokens, headed, List.flatten_cons]
    split
    · exact ⟨BACKSLASH, _, rfl, by decide, by decide, by decide⟩
    · rename_i h_first
      simp only [Bool.or_eq_true, beq_iff_eq, not_or] at h_first
      obtain h_plain | ⟨x, h_esc⟩ := token_head (token_key c)
      · obtain ⟨h_sep, h_lf, h_cr, -⟩ := keyToken_eq_self h_plain
        refine ⟨c, _, by rw [h_plain]; rfl, ?_, h_first.1, h_first.2⟩
        simp only [isBlank, Bool.or_eq_true, beq_iff_eq, not_or] at h_sep
        simpa [losesStart, lostAtStart, h_sep, h_lf, h_cr] using h
      · exact ⟨BACKSLASH, _, by rw [h_esc]; rfl, by decide, by decide, by decide⟩

/-! ### Reading it -/

theorem endsWithContinuation_written (key value : Text) :
    endsWithContinuation (escapeKey key ++ EQUALS :: escapeValue value) = false := by
  have h_key : endsWithContinuation (escapeKey key) = false := by
    rw [escapeKey_eq, ← List.nil_append (keyTokens key).flatten]
    exact endsWithContinuation_tokens (tokens_key key) rfl
  have h_eq : endsWithContinuation (escapeKey key ++ [EQUALS]) = false := by
    rw [endsWithContinuation_concat, if_neg (by decide)]
  rw [show escapeKey key ++ EQUALS :: escapeValue value =
    (escapeKey key ++ [EQUALS]) ++ escapeValue value by simp, escapeValue_eq]
  exact endsWithContinuation_tokens (tokens_value value) h_eq

theorem dropWhile_isBlank_escapeValue (value : Text) :
    (escapeValue value).dropWhile isBlank = escapeValue value := by
  rw [escapeValue_eq]
  cases value with
  | nil => rfl
  | cons c value =>
    rw [valueTokens, headed, List.flatten_cons]
    split
    · rfl
    · rename_i h_first
      obtain h_plain | ⟨x, h_esc⟩ := token_head (token_common c)
      · obtain ⟨-, -, h_tab, h_ff⟩ := commonToken_eq_self h_plain
        have h_space : c ≠ SPACE := fun h_eq => h_first (by simp [h_eq])
        have h_blank : isBlank c = false := by simp [isBlank, h_space, h_tab, h_ff]
        rw [h_plain, List.singleton_append, List.dropWhile_cons, if_neg (by simp [h_blank])]
      · rw [h_esc]
        rfl

/-- A written entry is read as it was. -/
theorem parseEntry_written (key value : Text) :
    parseEntry (escapeKey key ++ EQUALS :: escapeValue value) = (key, value) := by
  have h_split : splitKey (escapeKey key ++ EQUALS :: escapeValue value) =
      (escapeKey key, EQUALS :: escapeValue value) := by
    rw [escapeKey_eq]
    refine splitKey_tokens (tokens_key key) (fun c h_c => ?_) _
    exact (keyToken_eq_self (plain_of_mem_keyTokens h_c)).1
  have h_blank : (EQUALS :: escapeValue value).dropWhile isBlank = EQUALS :: escapeValue value := rfl
  rw [parseEntry, h_split, h_blank]
  simp only [skipSeparator, true_or, if_true]
  rw [dropWhile_isBlank_escapeValue, escapeKey_eq, escapeValue_eq, unescape_tokens (tokens_key key),
    unescape_tokens (tokens_value value)]

end Written

end Kubek.Properties
