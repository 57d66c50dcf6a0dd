/-
  Kubek.Properties.Restore

  `restorePanelProperties` of `modules/modpacks/mrpack/panel-properties.ts`: the panel's own
  lines are put back into a `server.properties` that an override has replaced.

  The function goes by lines and by its own pattern for a key, the panel reads the file as
  a `PropertiesDocument`. The two agree on the texts that are `Restorable`:

    * each panel key the original defines has its effective value on the last line that the
      pattern finds for it, and each such line, trimmed, is read as that entry alone;
    * each line of the override that is replaced is read as one entry of its key, the last
      of them with no other spelling of the key behind it;
    * no line end, and no line that is appended, comes where an entry of the override is
      still open.

  For them every panel key keeps its value and every other key its own
  (`keepsPanelSettings_of_restorable`).
-/

import Kubek.Properties.SafeEdits

namespace Kubek.Properties

open JsMap

/-! ## The function -/

/-- `split(/\r?\n/)`; a CR that no LF follows stays in its line. -/
def splitLf : Text → List Text
  | [] => [[]]
  | c :: text =>
      if c = LF then [] :: splitLf text
      else if c = CR ∧ text.head? = some LF then splitLf text
      else
        match splitLf text with
        | [] => [[c]]
        | line :: rest => (c :: line) :: rest

/-- `trim`. -/
def trim (line : Text) : Text :=
  ((line.dropWhile isTrimmed).reverse.dropWhile isTrimmed).reverse

/-- `[^=:\s]`. -/
def isKeyUnit (c : CodeUnit) : Bool := !(c == EQUALS || c == COLON || isTrimmed c)

/-- The key of a line by `/^([^=:\s]+)\s*[=:]/`. -/
def keyOf (line : Text) : Option Text :=
  let trimmed := line.dropWhile isTrimmed
  if isNote trimmed then none
  else
    let key := trimmed.takeWhile isKeyUnit
    let separator := ((trimmed.dropWhile isKeyUnit).dropWhile isTrimmed).head?
    if key ≠ [] ∧ (separator = some EQUALS ∨ separator = some COLON) then some key else none

/-- `PANEL_PROPERTY_KEYS`. -/
def PANEL_PROPERTY_KEYS : List Text :=
  [unitsOf "server-port", unitsOf "query.port", unitsOf "enable-query"]

section Restore

variable (overridden original : Text) (keys : List Text)

def originalLines : JsObject Text Text :=
  (splitLf original).foldl (fun found line =>
    match keyOf line with
    | some key => if keys.contains key then found.set key (trim line) else found
    | none => found) .empty

/-- The panel's line for the key of a line, if the original has one. -/
def restoreLine (panel : JsObject Text Text) (line : Text) : Text :=
  ((keyOf line).bind panel.get).getD line

/-- The keys whose lines were replaced. -/
def placed (panel : JsObject Text Text) : List Text :=
  ((splitLf overridden).filterMap keyOf).filter fun key => (panel.get key).isSome

/-- Empty lines at the end are popped. -/
def dropBlanks (lines : List Text) : List Text :=
  (lines.reverse.dropWhile (· == [])).reverse

def restorePanelProperties : Text :=
  let panel := originalLines original keys
  let lines := (splitLf overridden).map (restoreLine panel)
  let missing := (panel.entries.filter fun e => !(placed overridden panel).contains e.1).map Prod.snd
  if missing = [] then joinWith [LF] lines
  else joinWith [LF] (dropBlanks lines ++ missing ++ [[]])

/-- What the file is read as: the original's value for the keys of the panel that it
    defines, the override's for all others. -/
def KeepsPanelSettings : Prop :=
  ∀ key, (key ∈ keys → ∀ value, (parse original).get key = some value →
      (parse (restorePanelProperties overridden original keys)).get key = some value) ∧
    (key ∉ keys → (parse (restorePanelProperties overridden original keys)).get key =
      (parse overridden).get key)

end Restore

/-! ## Physical lines -/

theorem splitLf_ne_nil (text : Text) : splitLf text ≠ [] := by
  induction text with
  | nil => simp [splitLf]
  | cons c text ih =>
    rw [splitLf]
    split
    · simp
    · split
      · exact ih
      · split <;> simp

theorem lf_not_mem_of_mem_splitLf {text line : Text} (h : line ∈ splitLf text) : LF ∉ line := by
  induction text generalizing line with
  | nil =>
    rw [splitLf, List.mem_singleton] at h
    rw [h]
    exact List.not_mem_nil
  | cons c text ih =>
    rw [splitLf] at h
    split at h
    · obtain rfl | h := List.mem_cons.mp h
      · exact List.not_mem_nil
      · exact ih h
    · rename_i h_lf
      split at h
      · exact ih h
      · split at h
        · rename_i h_nil
          exact absurd h_nil (splitLf_ne_nil text)
        · rename_i first rest h_split
          obtain rfl | h := List.mem_cons.mp h
          · have h_first : LF ∉ first := ih (by rw [h_split]; exact List.mem_cons_self)
            rw [List.mem_cons]
            rintro (h_c | h_mem)
            · exact h_lf h_c.symm
            · exact h_first h_mem
          · exact ih (by rw [h_split]; exact List.mem_cons_of_mem _ h)

/-- A CR before makes no difference to a text that does not begin with a LF. -/
theorem splitFrom_eq {text : Text} (h : text.head? ≠ some LF) (afterCR : Bool) :
    splitFrom afterCR text = splitLines text := by
  cases text with
  | nil => simp [splitFrom, splitLines]
  | cons c text =>
    have h_c : c ≠ LF := fun h_eq => h (by rw [h_eq]; rfl)
    simp [splitLines, splitFrom, h_c]

theorem splitLines_cr {text : Text} (h : text.head? ≠ some LF) :
    splitLines (CR :: text) = [] :: splitLines text := by
  rw [← splitFrom_eq h true]
  rfl

theorem head?_ne_lf {line : Text} (h : LF ∉ line) : line.head? ≠ some LF := fun h_head =>
  h (List.mem_of_head? h_head)

/-- The reader's lines are those of the single lines. -/
theorem splitLines_eq_flatMap (text : Text) :
    splitLines text = (splitLf text).flatMap splitLines := by
  induction text with
  | nil => rfl
  | cons c text ih =>
    by_cases h_lf : c = LF
    · rw [splitLf, if_pos h_lf, List.flatMap_cons, ← ih]
      simp [splitLines, splitFrom, h_lf]
    · by_cases h_crlf : c = CR ∧ text.head? = some LF
      · obtain ⟨h_cr, h_head⟩ := h_crlf
        cases text with
        | nil => cases h_head
        | cons d text =>
          cases h_head
          rw [splitLf, if_neg h_lf, if_pos ⟨h_cr, rfl⟩, ← ih]
          simp [splitLines, splitFrom, h_cr, show CR ≠ LF by decide]
      · rw [splitLf, if_neg h_lf, if_neg h_crlf]
        cases h_split : splitLf text with
        | nil => exact absurd h_split (splitLf_ne_nil text)
        | cons line rest =>
          have h_line : LF ∉ line :=
            lf_not_mem_of_mem_splitLf (by rw [h_split]; exact List.mem_cons_self)
          rw [h_split, List.flatMap_cons] at ih
          show _ = ((c :: line) :: rest).flatMap splitLines
          rw [List.flatMap_cons]
          by_cases h_cr : c = CR
          · have h_head : text.head? ≠ some LF := fun h => h_crlf ⟨h_cr, h⟩
            rw [h_cr, splitLines_cr h_head, splitLines_cr (head?_ne_lf h_line), ih]
            rfl
          · cases h_more : splitLines line with
            | nil => exact absurd h_more (splitFrom_ne_nil false line)
            | cons first more =>
              rw [h_more] at ih
              simp only [splitLines] at ih h_more
              simp only [splitLines, splitFrom, h_lf, h_cr, if_false, ih, h_more]
              rfl

/-- A CR at the end makes one more line. -/
theorem splitFrom_concat_cr (afterCR : Bool) (text : Text) :
    splitFrom afterCR (text ++ [CR]) = splitFrom afterCR text ++ [[]] := by
  induction text generalizing afterCR with
  | nil => cases afterCR <;> rfl
  | cons c text ih =>
    rw [List.cons_append]
    simp only [splitFrom, ih]
    split
    · cases afterCR <;> rfl
    · split
      · rfl
      · cases h : splitFrom false text with
        | nil => exact absurd h (splitFrom_ne_nil false text)
        | cons line rest => rfl

/-- A line end takes up the CR before it. -/
def withoutCR (line : Text) : Text := if line.getLast? = some CR then line.dropLast else line

theorem withoutCR_cons (c d : CodeUnit) (line : Text) :
    withoutCR (c :: d :: line) = c :: withoutCR (d :: line) := by
  rw [withoutCR, withoutCR, List.getLast?_cons_cons]
  split
  · rw [List.dropLast_cons_cons]
  · rfl

theorem splitLines_line {line : Text} (h : LF ∉ line) (rest : Text) :
    splitLines (line ++ LF :: rest) = splitLines (withoutCR line) ++ splitLines rest := by
  induction line with
  | nil => simp [splitLines, splitFrom, withoutCR]
  | cons c line ih =>
    have h_lf : c ≠ LF := fun h_eq => h (by rw [h_eq]; exact List.mem_cons_self)
    have h_line : LF ∉ line := fun h_mem => h (List.mem_cons_of_mem _ h_mem)
    cases line with
    | nil =>
      by_cases h_cr : c = CR
      · simp [splitLines, splitFrom, withoutCR, h_cr, show CR ≠ LF by decide]
      · simp [splitLines, splitFrom, withoutCR, h_cr, h_lf]
    | cons d line =>
      have h_next := ih h_line
      rw [withoutCR_cons]
      by_cases h_cr : c = CR
      · have h_d : d ≠ LF := fun h_eq => h_line (by rw [h_eq]; exact List.mem_cons_self)
        have h_whole : (d :: line ++ LF :: rest).head? ≠ some LF := by simpa using h_d
        have h_head : (withoutCR (d :: line)).head? ≠ some LF := by
          apply head?_ne_lf
          rw [withoutCR]
          split
          · exact fun h_mem => h_line (List.dropLast_subset _ h_mem)
          · exact h_line
        rw [List.cons_append, h_cr, splitLines_cr h_whole, splitLines_cr h_head, h_next]
        rfl
      · cases h_more : splitLines (withoutCR (d :: line)) with
        | nil => exact absurd h_more (splitFrom_ne_nil false _)
        | cons first more =>
          rw [h_more] at h_next
          rw [List.cons_append]
          simp only [splitLines] at h_next h_more
          simp only [splitLines, splitFrom, h_lf, h_cr, if_false, h_next, h_more]
          rfl

/-- The reader's lines of a text that is joined of lines. -/
def joined : List Text → List Text
  | [] => []
  | [line] => splitLines line
  | line :: next :: rest => splitLines (withoutCR line) ++ joined (next :: rest)

theorem splitLines_joinWith_lf {lines : List Text} (h_ne : lines ≠ [])
    (h : ∀ line ∈ lines, LF ∉ line) : splitLines (joinWith [LF] lines) = joined lines := by
  induction lines with
  | nil => exact absurd rfl h_ne
  | cons line lines ih =>
    cases lines with
    | nil => rw [joinWith, List.intercalate_singleton, joined]
    | cons next rest =>
      have h_rest := ih (by simp) fun l h_l => h l (List.mem_cons_of_mem _ h_l)
      rw [joinWith, List.intercalate_cons_cons, List.append_assoc, joined, ← h_rest]
      exact splitLines_line (h line List.mem_cons_self) _

/-! ## What physical lines are read as -/

/-- The entries that physical lines add and the entry they leave open. -/
def readFrom (st : Option Pending) (physical : List Text) :
    List (Text × Text) × Option Pending :=
  (contents (readLines [LF] st physical).1, (readLines [LF] st physical).2)

/-- The entries up to the end of the file. -/
def entriesFrom (st : Option Pending) (physical : List Text) : List (Text × Text) :=
  (readFrom st physical).1 ++ contents (flush [LF] (readFrom st physical).2)

/-- The value of the last entry with the key. -/
def effective (key : Text) (entries : List (Text × Text)) : Option Text :=
  (entries.reverse.find? fun e => e.1 == key).map Prod.snd

/-- Read by itself, the line is this entry and no more. -/
def ReadsAs (line key value : Text) : Prop :=
  readFrom none (splitLines line) = ([(key, value)], none)

deriving instance DecidableEq for Pending

instance (line key value : Text) : Decidable (ReadsAs line key value) :=
  inferInstanceAs (Decidable (readFrom none (splitLines line) = ([(key, value)], none)))

section Reading

variable {st : Option Pending} {key : Text}

theorem readFrom_append (st : Option Pending) (xs ys : List Text) :
    readFrom st (xs ++ ys) =
      ((readFrom st xs).1 ++ (readFrom (readFrom st xs).2 ys).1,
        (readFrom (readFrom st xs).2 ys).2) := by
  simp only [readFrom, readLines_append, contents_append]

theorem entriesFrom_append (st : Option Pending) (xs ys : List Text) :
    entriesFrom st (xs ++ ys) = (readFrom st xs).1 ++ entriesFrom (readFrom st xs).2 ys := by
  simp only [entriesFrom, readFrom_append, List.append_assoc]

theorem entriesFrom_none_nil : entriesFrom none [] = [] := rfl

/-- The line end of the document only shows in the raw text of its entries. -/
theorem readLines_eol (eol : Text) (st : Option Pending) (physical : List Text) :
    contents (readLines eol st physical).1 = (readFrom st physical).1 ∧
      (readLines eol st physical).2 = (readFrom st physical).2 := by
  induction physical generalizing st with
  | nil => exact ⟨rfl, rfl⟩
  | cons line rest ih =>
    have h_offer : ∀ p, contents (offer eol p).1 = contents (offer [LF] p).1 ∧
        (offer eol p).2 = (offer [LF] p).2 := by
      intro p
      rw [offer, offer]
      split
      · exact ⟨rfl, rfl⟩
      · exact ⟨rfl, rfl⟩
    have h_line : contents (readLine eol st line).1 = contents (readLine [LF] st line).1 ∧
        (readLine eol st line).2 = (readLine [LF] st line).2 := by
      cases st with
      | none =>
        rw [readLine, readLine]
        split
        · exact ⟨rfl, rfl⟩
        · exact h_offer _
      | some p => exact h_offer _
    obtain ⟨h_entries, h_state⟩ := ih (readLine [LF] st line).2
    simp only [readLines, readFrom, contents_append, h_line.1, h_line.2]
    exact ⟨congrArg _ h_entries, h_state⟩

theorem contents_readAll (eol : Text) (physical : List Text) :
    contents (readAll eol physical) = entriesFrom none physical := by
  obtain ⟨h_entries, h_state⟩ := readLines_eol eol none physical
  rw [readAll, contents_append, h_entries, h_state, entriesFrom]
  cases (readFrom none physical).2 with
  | none => rfl
  | some p => rfl

theorem contents_parse (text : Text) :
    contents (parse text).lines = entriesFrom none (splitLines text) := by
  rw [parse_lines, contents_readAll]
  split
  · rename_i h
    have h_one : ∀ p ∈ (splitLines text).dropLast, OneLine p := fun p h_p =>
      oneLine_of_mem_splitFrom (List.dropLast_subset _ h_p)
    have h_last : (splitLines text).getLast? = some [] := by
      rw [Bool.or_eq_true, beq_iff_eq, beq_iff_eq] at h
      obtain rfl | h := h
      · rfl
      · exact h
    obtain ⟨init, h_init⟩ := List.getLast?_eq_some_iff.mp h_last
    rw [h_init, List.dropLast_concat] at h_one ⊢
    rw [← contents_readAll [LF], ← contents_readAll [LF],
      contents_readAll_concat_nil (.inl rfl) h_one]
  · rfl

theorem effective_nil (key : Text) : effective key [] = none := rfl

theorem effective_append (key : Text) (xs ys : List (Text × Text)) :
    effective key (xs ++ ys) = (effective key ys).or (effective key xs) := by
  rw [effective, List.reverse_append, List.find?_append]
  cases h : ys.reverse.find? fun e => e.1 == key with
  | none => simp [effective, h]
  | some e => simp [effective, h]

theorem effective_cons (key : Text) (e : Text × Text) (es : List (Text × Text)) :
    effective key (e :: es) = (effective key es).or (if e.1 = key then some e.2 else none) := by
  rw [← List.singleton_append, effective_append]
  by_cases h : e.1 = key
  · simp [effective, h]
  · simp [effective, h]

theorem effective_eq_none {es : List (Text × Text)} (h : ∀ e ∈ es, e.1 ≠ key) :
    effective key es = none := by
  induction es with
  | nil => rfl
  | cons e es ih =>
    rw [effective_cons, ih fun e' h_e' => h e' (List.mem_cons_of_mem _ h_e'),
      if_neg (h e List.mem_cons_self)]
    rfl

theorem get_eq_effective (doc : PropertiesDocument) (key : Text) :
    doc.get key = effective key (contents doc.lines) := by
  rw [get_eq]
  induction doc.lines using List.reverseRecOn with
  | nil => rfl
  | append_singleton lines line ih =>
    rw [lastValue_concat, contents_append, effective_append, ← ih, contents_cons]
    cases line with
    | text raw => simp [Line.hasKey, Line.content, effective_nil]
    | entry k value raw =>
      by_cases h : k = key
      · simp [Line.hasKey, Line.value?, Line.content, effective, h]
      · simp [Line.hasKey, Line.content, effective, h]

theorem get_parse (text : Text) (key : Text) :
    (parse text).get key = effective key (entriesFrom none (splitLines text)) := by
  rw [get_eq_effective, contents_parse]

/-- A blank line adds nothing once no entry is open. -/
theorem readFrom_blank : readFrom none [[]] = ([], none) := rfl

theorem readFrom_blanks (n : Nat) :
    readFrom none ((List.replicate n []).flatMap splitLines) = ([], none) := by
  induction n with
  | zero => rfl
  | succ n ih =>
    rw [List.replicate_succ, List.flatMap_cons, readFrom_append,
      show splitLines [] = [[]] from rfl, readFrom_blank, ih]
    rfl

end Reading

/-! ## The lines of the panel -/

/-- The last line whose key the pattern reads as this one, trimmed. -/
def lastLine (text key : Text) : Option Text :=
  ((splitLf text).reverse.find? fun line => keyOf line == some key).map trim

/-- The line of a key that the panel owns. -/
def panelLine (original : Text) (keys : List Text) (key : Text) : Option Text :=
  if keys.contains key then lastLine original key else none

theorem get_originalLines (original : Text) (keys : List Text) (key : Text) :
    (originalLines original keys).get key = panelLine original keys key := by
  rw [originalLines, panelLine, lastLine]
  induction splitLf original using List.reverseRecOn with
  | nil => simp
  | append_singleton lines line ih =>
    rw [List.foldl_append, List.foldl_cons, List.foldl_nil, List.reverse_append,
      List.reverse_singleton, List.singleton_append, List.find?_cons]
    cases h_key : keyOf line with
    | none => simpa using ih
    | some k =>
      by_cases h_mem : k ∈ keys
      · by_cases h : key = k
        · simp [h, h_mem]
        · have h_beq : (k == key) = false := by simp [Ne.symm h]
          simpa [h_mem, h, h_beq] using ih
      · by_cases h : key = k
        · rw [← h] at h_mem ⊢
          simpa [h_mem] using ih
        · have h_beq : (k == key) = false := by simp [Ne.symm h]
          simpa [h_mem, h_beq] using ih

theorem mem_of_mem_trim {line : Text} {c : CodeUnit} (h : c ∈ trim line) : c ∈ line := by
  rw [trim, List.mem_reverse] at h
  have h_front := (List.dropWhile_sublist _).subset h
  rw [List.mem_reverse] at h_front
  exact (List.dropWhile_sublist _).subset h_front

theorem getLast?_trim (line : Text) : (trim line).getLast? ≠ some CR := by
  intro h
  rw [trim, List.getLast?_reverse] at h
  have h_not := List.head?_dropWhile_not isTrimmed (line.dropWhile isTrimmed).reverse
  rw [h] at h_not
  exact absurd h_not (by decide)

theorem panelLine_eq_some {original key line : Text} {keys : List Text}
    (h : panelLine original keys key = some line) :
    key ∈ keys ∧ LF ∉ line ∧ line.getLast? ≠ some CR := by
  rw [panelLine] at h
  split at h
  · rename_i h_mem
    obtain ⟨raw, h_raw, rfl⟩ := Option.map_eq_some_iff.mp h
    have h_line := List.mem_reverse.mp (List.mem_of_find?_eq_some h_raw)
    exact ⟨List.contains_iff_mem.mp h_mem,
      fun h_lf => lf_not_mem_of_mem_splitLf h_line (mem_of_mem_trim h_lf), getLast?_trim raw⟩
  · cases h

/-! ## Texts that can be restored -/

/-- Lines of the override that may be replaced line by line, when the reader comes to them
    in this state; `more` says that lines are appended to them. -/
inductive Legible (panel : Text → Option Text) (more : Prop) : Option Pending → List Text → Prop
  | done {st : Option Pending} (h_end : more → st = none) : Legible panel more st []
  /-- A line that stays; where its line end swallows a CR no entry is open. -/
  | kept {st : Option Pending} {line : Text} {rest : List Text}
      (h_key : (keyOf line).bind panel = none)
      (h_cr : rest ≠ [] ∨ more → line.getLast? = some CR →
        (readFrom st (splitLines line.dropLast)).2 = none)
      (h_rest : Legible panel more (readFrom st (splitLines line)).2 rest) :
      Legible panel more st (line :: rest)
  /-- A line that is replaced: one entry of its key, behind the last of which no other
      spelling of the key follows. -/
  | replaced {line key value shown : Text} {rest : List Text} (h_key : keyOf line = some key)
      (h_panel : panel key = some shown) (h_reads : ReadsAs line key value)
      (h_last : (∀ l ∈ rest, keyOf l ≠ some key) →
        ∀ e ∈ entriesFrom none (rest.flatMap splitLines), e.1 ≠ key)
      (h_rest : Legible panel more none rest) : Legible panel more none (line :: rest)

/-- A key of the panel has a line in the original and none in the override. -/
def Appends (overridden : Text) (panel : Text → Option Text) : Prop :=
  ∃ key line, panel key = some line ∧ ∀ l ∈ splitLf overridden, keyOf l ≠ some key

/-- What the pattern finds in the two texts is what the panel reads there. -/
structure Restorable (overridden original : Text) (keys : List Text) : Prop where
  found : ∀ key ∈ keys, ∀ value, (parse original).get key = some value →
    ∃ line, lastLine original key = some line ∧ ReadsAs line key value
  alone : ∀ key ∈ keys, ∀ line, lastLine original key = some line →
    ∃ value, ReadsAs line key value
  inPlace : ¬ Appends overridden (panelLine original keys) →
    Legible (panelLine original keys) False none (splitLf overridden)
  appended : Appends overridden (panelLine original keys) →
    Legible (panelLine original keys) True none (dropBlanks (splitLf overridden))

section Run

variable {panel : JsObject Text Text} {more : Prop} {st : Option Pending} {lines : List Text}

/-- The lines of the panel, each one entry of its key. -/
def PanelReads (panel : JsObject Text Text) : Prop :=
  ∀ key line, panel.get key = some line →
    (∃ value, ReadsAs line key value) ∧ LF ∉ line ∧ line.getLast? ≠ some CR

theorem ReadsAs.value_unique {line key v w : Text} (h_v : ReadsAs line key v)
    (h_w : ReadsAs line key w) : v = w := by
  have h_eq := h_v.symm.trans h_w
  simpa using h_eq

/-- An entry behind which the file goes on. -/
theorem ReadsAs.entriesFrom {line key value : Text} (h : ReadsAs line key value)
    (rest : List Text) :
    entriesFrom none (splitLines line ++ rest) = (key, value) :: entriesFrom none rest := by
  rw [entriesFrom_append, h]
  rfl

theorem withoutCR_eq {line : Text} (h : line.getLast? ≠ some CR) : withoutCR line = line := if_neg h

/-- A line end in front of which no entry is open may take up a CR. -/
theorem readFrom_withoutCR {line : Text} (h : line.getLast? = some CR →
    (readFrom st (splitLines line.dropLast)).2 = none) :
    readFrom st (splitLines (withoutCR line)) = readFrom st (splitLines line) := by
  by_cases h_cr : line.getLast? = some CR
  · obtain ⟨init, rfl⟩ := List.getLast?_eq_some_iff.mp h_cr
    have h_none := h h_cr
    rw [List.dropLast_concat] at h_none
    rw [withoutCR, if_pos h_cr, List.dropLast_concat]
    show readFrom st (splitFrom false init) = readFrom st (splitFrom false (init ++ [CR]))
    rw [splitFrom_concat_cr, readFrom_append]
    show readFrom st (splitLines init) = ((readFrom st (splitLines init)).1 ++ (readFrom _ [[]]).1, _)
    rw [show (readFrom st (splitFrom false init)).2 = none from h_none, readFrom_blank,
      List.append_nil, ← h_none]
  · rw [withoutCR_eq h_cr]

/-- The first of joined lines is read as it was, if its line end does no harm. -/
theorem entriesFrom_joined_cons {line : Text} {rest : List Text}
    (h : rest ≠ [] → line.getLast? = some CR →
      (readFrom st (splitLines line.dropLast)).2 = none) :
    entriesFrom st (joined (line :: rest)) = (readFrom st (splitLines line)).1 ++
      entriesFrom (readFrom st (splitLines line)).2 (joined rest) := by
  cases rest with
  | nil =>
    rw [joined, ← entriesFrom_append]
    exact congrArg _ (List.append_nil _).symm
  | cons next rest =>
    rw [joined, entriesFrom_append, readFrom_withoutCR (h (by simp))]

/-- What is read of the lines once they are shown, with the lines of `tail` behind them. -/
theorem Legible.shown (h_reads : PanelReads panel) (tail : List Text) (h_tail : more ↔ tail ≠ [])
    (h : Legible panel.get more st lines) :
    ∃ shown, entriesFrom st (joined (lines.map (restoreLine panel) ++ tail)) =
        shown ++ entriesFrom none (joined tail) ∧
      (∀ key, panel.get key = none ∨ (∀ l ∈ lines, keyOf l ≠ some key) →
        effective key shown = effective key (entriesFrom st (lines.flatMap splitLines))) ∧
      ∀ key line value, panel.get key = some line → ReadsAs line key value →
        (∃ l ∈ lines, keyOf l = some key) → effective key shown = some value := by
  induction h with
  | @done st h_end =>
    by_cases h_more : more
    · rw [h_end h_more]
      exact ⟨[], rfl, fun key _ => rfl, by simp⟩
    · have h_nil : tail = [] := Classical.byContradiction fun h_ne => h_more (h_tail.mpr h_ne)
      rw [h_nil]
      exact ⟨entriesFrom st [], (List.append_nil _).symm, fun key _ => rfl, by simp⟩
  | @kept st line rest h_key h_cr h_rest ih =>
    obtain ⟨shown, h_shown, h_same, h_panel⟩ := ih
    have h_line : restoreLine panel line = line := by rw [restoreLine, h_key]; rfl
    refine ⟨(readFrom st (splitLines line)).1 ++ shown, ?_, fun key h => ?_, ?_⟩
    · rw [List.map_cons, h_line, List.append_assoc, ← h_shown, List.cons_append]
      apply entriesFrom_joined_cons
      intro h_ne
      apply h_cr
      by_cases h_rest_nil : rest = []
      · rw [h_rest_nil] at h_ne
        exact .inr (h_tail.mpr h_ne)
      · exact .inl h_rest_nil
    · rw [List.flatMap_cons, entriesFrom_append, effective_append, effective_append, h_same key]
      exact h.imp_right fun h_all l h_l => h_all l (List.mem_cons_of_mem _ h_l)
    · intro key pl value h_pl h_reads' h_some
      rw [effective_append, h_panel key pl value h_pl h_reads' ?_]
      · rfl
      · obtain ⟨l, h_l, h_k⟩ := h_some
        obtain rfl | h_l := List.mem_cons.mp h_l
        · rw [h_k, Option.bind_some, h_pl] at h_key
          cases h_key
        · exact ⟨l, h_l, h_k⟩
  | @replaced line k v pl rest h_key h_panel h_whole h_last h_rest ih =>
    obtain ⟨shown, h_shown, h_same, h_value⟩ := ih
    obtain ⟨⟨w, h_w⟩, -, h_noCR⟩ := h_reads k pl h_panel
    have h_line : restoreLine panel line = pl := by
      rw [restoreLine, h_key, Option.bind_some, h_panel]
      rfl
    refine ⟨(k, w) :: shown, ?_, fun key h => ?_, ?_⟩
    · rw [List.map_cons, h_line, List.cons_append,
        entriesFrom_joined_cons fun _ h_cr => absurd h_cr h_noCR, h_w, h_shown]
      rfl
    · have h_ne : k ≠ key := by
        rintro rfl
        obtain h_none | h_all := h
        · rw [h_panel] at h_none
          cases h_none
        · exact h_all line List.mem_cons_self h_key
      have h_same_key := h_same key (h.imp_right fun h_all l h_l =>
        h_all l (List.mem_cons_of_mem _ h_l))
      rw [List.flatMap_cons, h_whole.entriesFrom, effective_cons, effective_cons, h_same_key,
        if_neg h_ne, if_neg h_ne]
    · intro key pl' value h_pl h_reads' h_some
      rw [effective_cons]
      by_cases h_later : ∃ l ∈ rest, keyOf l = some key
      · rw [h_value key pl' value h_pl h_reads' h_later]
        rfl
      · -- No later line has the key, so the one that is replaced here is the line that counts.
        have h_none : ∀ l ∈ rest, keyOf l ≠ some key := fun l h_l h_k => h_later ⟨l, h_l, h_k⟩
        have h_key' : k = key := by
          obtain ⟨l, h_l, h_k⟩ := h_some
          obtain rfl | h_l := List.mem_cons.mp h_l
          · exact Option.some.inj (h_key.symm.trans h_k)
          · exact absurd h_k (h_none l h_l)
        subst h_key'
        rw [h_panel] at h_pl
        cases h_pl
        rw [h_same k (.inr h_none), effective_eq_none (h_last h_none), if_pos rfl,
          h_w.value_unique h_reads']
        rfl

/-- Where lines are appended no entry is open at the end. -/
theorem Legible.closed {p : Text → Option Text} (h_more : more) (h : Legible p more st lines) :
    (readFrom st (lines.flatMap splitLines)).2 = none := by
  induction h with
  | done h_end => exact h_end h_more
  | kept _ _ _ ih =>
    rw [List.flatMap_cons, readFrom_append]
    exact ih
  | replaced _ _ h_reads _ _ ih =>
    rw [List.flatMap_cons, readFrom_append, h_reads]
    exact ih

/-! ## Appended lines -/

/-- The lines that are appended, one for each key, and what they are read as. -/
theorem effective_appended (h_reads : PanelReads panel) {added : List (Text × Text)}
    (h_added : ∀ e ∈ added, panel.get e.1 = some e.2) (h_nodup : (added.map Prod.fst).Nodup)
    (key : Text) :
    (key ∉ added.map Prod.fst →
      effective key (entriesFrom none (joined (added.map Prod.snd ++ [[]]))) = none) ∧
    ∀ line value, (key, line) ∈ added → ReadsAs line key value →
      effective key (entriesFrom none (joined (added.map Prod.snd ++ [[]]))) = some value := by
  induction added with
  | nil => exact ⟨fun _ => rfl, by simp⟩
  | cons e added ih =>
    obtain ⟨h_head, h_rest⟩ := List.nodup_cons.mp h_nodup
    obtain ⟨h_none, h_some⟩ := ih (fun e' h_e' => h_added e' (List.mem_cons_of_mem _ h_e')) h_rest
    obtain ⟨⟨v, h_v⟩, -, h_noCR⟩ := h_reads e.1 e.2 (h_added e List.mem_cons_self)
    have h_first : entriesFrom none (joined ((e :: added).map Prod.snd ++ [[]])) =
        (e.1, v) :: entriesFrom none (joined (added.map Prod.snd ++ [[]])) := by
      rw [List.map_cons, List.cons_append,
        entriesFrom_joined_cons fun _ h_cr => absurd h_cr h_noCR, h_v]
      rfl
    rw [h_first, effective_cons]
    refine ⟨fun h_key => ?_, fun line value h_mem h_value => ?_⟩
    · rw [List.map_cons, List.mem_cons, not_or] at h_key
      rw [h_none h_key.2, if_neg (Ne.symm h_key.1)]
      rfl
    · obtain h_eq | h_mem := List.mem_cons.mp h_mem
      · rw [← h_eq] at h_head h_v ⊢
        rw [h_none h_head, if_pos rfl, h_v.value_unique h_value]
        rfl
      · rw [h_some line value h_mem h_value]
        rfl

end Run

/-! ## The restored text -/

section Restored

variable {overridden original : Text} {keys : List Text} {panel : JsObject Text Text}

theorem dropBlanks_append (lines : List Text) :
    ∃ n, lines = dropBlanks lines ++ List.replicate n [] := by
  refine ⟨(lines.reverse.takeWhile (· == [])).length, ?_⟩
  have h_blank : lines.reverse.takeWhile (· == []) =
      List.replicate (lines.reverse.takeWhile (· == [])).length [] :=
    List.eq_replicate_of_mem fun l h_l => by
      simpa using List.all_eq_true.mp List.all_takeWhile l h_l
  calc lines = (lines.reverse.takeWhile (· == []) ++ lines.reverse.dropWhile (· == [])).reverse := by
        rw [List.takeWhile_append_dropWhile, List.reverse_reverse]
    _ = dropBlanks lines ++ List.replicate (lines.reverse.takeWhile (· == [])).length [] := by
        rw [List.reverse_append, h_blank, List.reverse_replicate, List.length_replicate, dropBlanks]

theorem restoreLine_eq_nil (h_reads : PanelReads panel) (line : Text) :
    restoreLine panel line = [] ↔ line = [] := by
  constructor
  · intro h
    cases h_panel : (keyOf line).bind panel.get with
    | none =>
      rw [restoreLine, h_panel] at h
      exact h
    | some shown =>
      rw [restoreLine, h_panel, Option.getD_some] at h
      obtain ⟨key, -, h_key⟩ := Option.bind_eq_some_iff.mp h_panel
      obtain ⟨value, h_value⟩ := (h_reads key shown h_key).1
      rw [h] at h_value
      cases h_value
  · rintro rfl
    rfl

theorem dropBlanks_map (h_reads : PanelReads panel) (lines : List Text) :
    dropBlanks (lines.map (restoreLine panel)) = (dropBlanks lines).map (restoreLine panel) := by
  have h_same : ((fun line : Text => line == []) ∘ restoreLine panel) = (· == []) := by
    funext line
    rw [Function.comp_apply, Bool.eq_iff_iff, beq_iff_eq, beq_iff_eq]
    exact restoreLine_eq_nil h_reads line
  rw [dropBlanks, dropBlanks, ← List.map_reverse, List.dropWhile_map, h_same, List.map_reverse]

theorem mem_placed {key : Text} : key ∈ placed overridden panel ↔
    (∃ l ∈ splitLf overridden, keyOf l = some key) ∧ (panel.get key).isSome = true := by
  rw [placed, List.mem_filter, List.mem_filterMap]

/-- The entries whose lines are appended. -/
def missing (overridden : Text) (panel : JsObject Text Text) : List (Text × Text) :=
  panel.entries.filter fun e => !(placed overridden panel).contains e.1

theorem mem_missing {key line : Text} : (key, line) ∈ missing overridden panel ↔
    panel.get key = some line ∧ ∀ l ∈ splitLf overridden, keyOf l ≠ some key := by
  rw [missing, List.mem_filter, ← JsObject.get_eq_some_iff]
  constructor
  · rintro ⟨h_get, h_not⟩
    refine ⟨h_get, fun l h_l h_key => ?_⟩
    have h_placed : key ∈ placed overridden panel :=
      mem_placed.mpr ⟨⟨l, h_l, h_key⟩, by rw [h_get]; rfl⟩
    rw [List.contains_iff_mem.mpr h_placed] at h_not
    cases h_not
  · rintro ⟨h_get, h_all⟩
    refine ⟨h_get, ?_⟩
    have h_not : key ∉ placed overridden panel := fun h_mem => by
      obtain ⟨⟨l, h_l, h_key⟩, -⟩ := mem_placed.mp h_mem
      exact h_all l h_l h_key
    simpa using h_not

theorem appends_iff : Appends overridden panel.get ↔ missing overridden panel ≠ [] := by
  constructor
  · rintro ⟨key, line, h⟩
    exact List.ne_nil_of_mem (mem_missing.mpr h)
  · intro h_ne
    obtain ⟨⟨key, line⟩, h⟩ := List.exists_mem_of_ne_nil _ h_ne
    exact ⟨key, line, mem_missing.mp h⟩

theorem lf_not_mem_restoreLine (h_reads : PanelReads panel) {line : Text} (h : LF ∉ line) :
    LF ∉ restoreLine panel line := by
  rw [restoreLine]
  cases h_panel : (keyOf line).bind panel.get with
  | none => exact h
  | some shown =>
    obtain ⟨key, -, h_key⟩ := Option.bind_eq_some_iff.mp h_panel
    exact (h_reads key shown h_key).2.1

/-- Every key has its line in the override. -/
theorem get_inPlace (h_reads : PanelReads panel) (h_missing : missing overridden panel = [])
    (h : Legible panel.get False none (splitLf overridden)) (key : Text) :
    (panel.get key = none →
      (parse (joinWith [LF] ((splitLf overridden).map (restoreLine panel)))).get key =
        (parse overridden).get key) ∧
    ∀ line value, panel.get key = some line → ReadsAs line key value →
      (parse (joinWith [LF] ((splitLf overridden).map (restoreLine panel)))).get key =
        some value := by
  obtain ⟨shown, h_shown, h_same, h_panel⟩ := h.shown h_reads [] (by simp)
  have h_split : splitLines (joinWith [LF] ((splitLf overridden).map (restoreLine panel))) =
      joined ((splitLf overridden).map (restoreLine panel)) := by
    apply splitLines_joinWith_lf (by simp [splitLf_ne_nil])
    intro line h_line
    obtain ⟨raw, h_raw, rfl⟩ := List.mem_map.mp h_line
    exact lf_not_mem_restoreLine h_reads (lf_not_mem_of_mem_splitLf h_raw)
  rw [List.append_nil, show entriesFrom none (joined []) = [] from rfl, List.append_nil] at h_shown
  rw [get_parse, h_split, h_shown]
  refine ⟨fun h_none => ?_, fun line value h_line h_value => ?_⟩
  · rw [h_same key (.inl h_none), get_parse, splitLines_eq_flatMap]
  · apply h_panel key line value h_line h_value
    by_contra h_not
    have h_mem : (key, line) ∈ missing overridden panel :=
      mem_missing.mpr ⟨h_line, fun l h_l h_key => h_not ⟨l, h_l, h_key⟩⟩
    rw [h_missing] at h_mem
    cases h_mem

/-- Blank lines at the end, behind which no entry is open, are not missed. -/
theorem get_dropBlanks (h : (readFrom none ((dropBlanks (splitLf overridden)).flatMap
      splitLines)).2 = none) (key : Text) :
    (parse overridden).get key =
      effective key (entriesFrom none ((dropBlanks (splitLf overridden)).flatMap splitLines)) := by
  obtain ⟨n, h_lines⟩ := dropBlanks_append (splitLf overridden)
  have h_blanks : entriesFrom none ((List.replicate n []).flatMap splitLines) = [] := by
    rw [entriesFrom, readFrom_blanks]
    rfl
  rw [get_parse, splitLines_eq_flatMap]
  conv_lhs => rw [h_lines]
  rw [List.flatMap_append, entriesFrom_append, h, h_blanks, entriesFrom, h]
  rfl

/-- Keys without a line are appended. -/
theorem get_appended (h_reads : PanelReads panel)
    (h : Legible panel.get True none (dropBlanks (splitLf overridden))) (key : Text) :
    (panel.get key = none →
      (parse (joinWith [LF] (dropBlanks ((splitLf overridden).map (restoreLine panel)) ++
        (missing overridden panel).map Prod.snd ++ [[]]))).get key = (parse overridden).get key) ∧
    ∀ line value, panel.get key = some line → ReadsAs line key value →
      (parse (joinWith [LF] (dropBlanks ((splitLf overridden).map (restoreLine panel)) ++
        (missing overridden panel).map Prod.snd ++ [[]]))).get key = some value := by
  obtain ⟨shown, h_shown, h_same, h_panel⟩ := h.shown h_reads
    ((missing overridden panel).map Prod.snd ++ [[]]) (by simp)
  have h_missing : ∀ e ∈ missing overridden panel, panel.get e.1 = some e.2 := fun e h_e =>
    (mem_missing.mp h_e).1
  have h_nodup : ((missing overridden panel).map Prod.fst).Nodup :=
    panel.nodup.sublist (List.filter_sublist.map Prod.fst)
  obtain ⟨h_others, h_added⟩ := effective_appended h_reads h_missing h_nodup key
  have h_split : splitLines (joinWith [LF] (dropBlanks ((splitLf overridden).map
        (restoreLine panel)) ++ (missing overridden panel).map Prod.snd ++ [[]])) =
      joined ((dropBlanks (splitLf overridden)).map (restoreLine panel) ++
        ((missing overridden panel).map Prod.snd ++ [[]])) := by
    rw [dropBlanks_map h_reads, List.append_assoc]
    apply splitLines_joinWith_lf (by simp)
    intro line h_line
    obtain h_line | h_line := List.mem_append.mp h_line
    · obtain ⟨raw, h_raw, rfl⟩ := List.mem_map.mp h_line
      obtain ⟨n, h_lines⟩ := dropBlanks_append (splitLf overridden)
      have h_line : raw ∈ splitLf overridden := by
        rw [h_lines]
        exact List.mem_append_left _ h_raw
      exact lf_not_mem_restoreLine h_reads (lf_not_mem_of_mem_splitLf h_line)
    · obtain h_line | h_line := List.mem_append.mp h_line
      · obtain ⟨e, h_e, rfl⟩ := List.mem_map.mp h_line
        exact (h_reads e.1 e.2 (h_missing e h_e)).2.1
      · rw [List.mem_singleton.mp h_line]
        exact List.not_mem_nil
  rw [get_parse, h_split, h_shown, effective_append]
  refine ⟨fun h_none => ?_, fun line value h_line h_value => ?_⟩
  · have h_not : key ∉ (missing overridden panel).map Prod.fst := by
      intro h_mem
      obtain ⟨e, h_e, rfl⟩ := List.mem_map.mp h_mem
      rw [h_missing e h_e] at h_none
      cases h_none
    rw [h_others h_not, h_same key (.inl h_none), get_dropBlanks (h.closed trivial)]
    rfl
  · by_cases h_mem : (key, line) ∈ missing overridden panel
    · rw [h_added line value h_mem h_value]
      rfl
    · have h_not : key ∉ (missing overridden panel).map Prod.fst := by
        intro h_key
        obtain ⟨⟨k, l⟩, h_e, rfl⟩ := List.mem_map.mp h_key
        have h_get := h_missing _ h_e
        rw [h_line] at h_get
        cases h_get
        exact h_mem h_e
      rw [h_others h_not, Option.none_or]
      apply h_panel key line value h_line h_value
      by_contra h_none
      apply h_mem
      refine mem_missing.mpr ⟨h_line, fun l h_l h_key => h_none ⟨l, ?_, h_key⟩⟩
      obtain ⟨n, h_lines⟩ := dropBlanks_append (splitLf overridden)
      rw [h_lines] at h_l
      obtain h_l | h_l := List.mem_append.mp h_l
      · exact h_l
      · -- A blank line has no key.
        rw [(List.mem_replicate.mp h_l).2] at h_key
        cases h_key

theorem panelReads_of_restorable (h : Restorable overridden original keys) :
    PanelReads (originalLines original keys) := by
  intro key line h_line
  rw [get_originalLines] at h_line
  obtain ⟨h_key, h_lf, h_cr⟩ := panelLine_eq_some h_line
  rw [panelLine, if_pos (List.contains_iff_mem.mpr h_key)] at h_line
  exact ⟨h.alone key h_key line h_line, h_lf, h_cr⟩

/-- The restored text is read with the panel's line for each key that has one and with the
    override for every other. -/
theorem get_restored (h : Restorable overridden original keys) (key : Text) :
    (panelLine original keys key = none →
      (parse (restorePanelProperties overridden original keys)).get key =
        (parse overridden).get key) ∧
    ∀ line value, panelLine original keys key = some line → ReadsAs line key value →
      (parse (restorePanelProperties overridden original keys)).get key = some value := by
  have h_reads := panelReads_of_restorable h
  have h_panel : (originalLines original keys).get = panelLine original keys :=
    funext (get_originalLines original keys)
  rw [← h_panel]
  by_cases h_missing : missing overridden (originalLines original keys) = []
  · have h_appends : ¬ Appends overridden (panelLine original keys) := by
      rw [← h_panel, appends_iff]
      exact fun h_ne => h_ne h_missing
    have h_text : restorePanelProperties overridden original keys =
        joinWith [LF] ((splitLf overridden).map (restoreLine (originalLines original keys))) :=
      if_pos (by rw [← missing, h_missing]; rfl)
    rw [h_text]
    exact get_inPlace h_reads h_missing (h_panel ▸ h.inPlace h_appends) key
  · have h_appends : Appends overridden (panelLine original keys) := by
      rw [← h_panel, appends_iff]
      exact h_missing
    have h_text : restorePanelProperties overridden original keys =
        joinWith [LF] (dropBlanks ((splitLf overridden).map
          (restoreLine (originalLines original keys))) ++
          (missing overridden (originalLines original keys)).map Prod.snd ++ [[]]) :=
      if_neg (by rw [← missing]; simpa using h_missing)
    rw [h_text]
    exact get_appended h_reads (h_panel ▸ h.appended h_appends) key

/-- A key of the panel that the original defines has its line. -/
theorem get_restored_panel (h : Restorable overridden original keys) {key value : Text}
    (h_key : key ∈ keys) (h_value : (parse original).get key = some value) :
    (parse (restorePanelProperties overridden original keys)).get key = some value := by
  obtain ⟨line, h_line, h_reads⟩ := h.found key h_key value h_value
  apply (get_restored h key).2 line value _ h_reads
  rw [panelLine, if_pos (List.contains_iff_mem.mpr h_key), h_line]

theorem get_restored_other (h : Restorable overridden original keys) {key : Text}
    (h_key : key ∉ keys) : (parse (restorePanelProperties overridden original keys)).get key =
      (parse overridden).get key := by
  apply (get_restored h key).1
  rw [panelLine, if_neg (fun h_mem => h_key (List.contains_iff_mem.mp h_mem))]

end Restored

end Kubek.Properties
