/-
  Kubek.Properties.Reread

  What is written is read back.

  A line is `Closed` when the physical lines it is written as are read as it alone, and
  `Open` when they end in a backslash that the reader closes only at the end of the file.
  A document whose lines are all one or the other, and at most the last one open, is `Tidy`:
  its text is read back with the same entries (`contents_parse_toText`). Parsing any text
  makes a tidy document (`tidy_parse`).
-/

import Kubek.Properties.Escapes

namespace Kubek.Properties

/-! ## Backslashes at the end -/

theorem endsWithContinuation_append {xs : Text} (h : endsWithContinuation xs = false)
    (ys : Text) : endsWithContinuation (xs ++ ys) = endsWithContinuation ys := by
  induction ys using List.reverseRecOn with
  | nil => rw [List.append_nil, h]; rfl
  | append_singleton ys c ih =>
    rw [← List.append_assoc, endsWithContinuation_concat, endsWithContinuation_concat, ih]

theorem endsWithContinuation_of_not_mem {xs : Text} (h : BACKSLASH ∉ xs) :
    endsWithContinuation xs = false := by
  induction xs using List.reverseRecOn with
  | nil => rfl
  | append_singleton xs c _ =>
    have h_c : c ≠ BACKSLASH := fun h_eq => h (by simp [h_eq])
    rw [endsWithContinuation_concat, if_neg h_c]

/-- White space at the start makes no difference. -/
theorem endsWithContinuation_dropWhile {q : CodeUnit → Bool} (h : q BACKSLASH = false)
    (xs : Text) : endsWithContinuation (xs.dropWhile q) = endsWithContinuation xs := by
  have h_taken : BACKSLASH ∉ xs.takeWhile q := fun h_mem => by
    have h_q := List.all_eq_true.mp List.all_takeWhile BACKSLASH h_mem
    rw [h] at h_q
    cases h_q
  have h_eq := endsWithContinuation_append (endsWithContinuation_of_not_mem h_taken)
    (xs.dropWhile q)
  rwa [List.takeWhile_append_dropWhile, eq_comm] at h_eq

/-- Without its last backslash an open line is closed. -/
theorem endsWithContinuation_dropLast {xs : Text} (h : endsWithContinuation xs = true) :
    endsWithContinuation xs.dropLast = false := by
  induction xs using List.reverseRecOn with
  | nil => cases h
  | append_singleton xs c _ =>
    rw [endsWithContinuation_concat] at h
    rw [List.dropLast_concat]
    split at h
    · simpa using h
    · cases h

theorem joinWith_append {eol : Text} {xs ys : List Text} (h_xs : xs ≠ []) (h_ys : ys ≠ []) :
    joinWith eol (xs ++ ys) = joinWith eol xs ++ (eol ++ joinWith eol ys) := by
  induction xs with
  | nil => exact absurd rfl h_xs
  | cons x xs ih =>
    cases xs with
    | nil =>
      rw [List.singleton_append, joinWith, List.intercalate_cons_of_ne_nil h_ys, joinWith,
        List.intercalate_singleton, joinWith, List.append_assoc]
    | cons y xs =>
      have h_rest := ih (by simp)
      simp only [joinWith, List.cons_append, List.intercalate_cons_cons] at h_rest ⊢
      rw [h_rest]
      simp only [List.append_assoc]

/-- The last line of several decides. -/
theorem endsWithContinuation_joinWith {eol : Text} (h_eol : IsEol eol) (parts : List Text)
    (line : Text) : endsWithContinuation (joinWith eol (parts ++ [line])) =
      endsWithContinuation line := by
  cases parts with
  | nil => rw [List.nil_append, joinWith, List.intercalate_singleton]
  | cons part parts =>
    have h_last : joinWith eol [line] = line := List.intercalate_singleton
    rw [joinWith_append (by simp) (by simp), ← List.append_assoc, h_last]
    apply endsWithContinuation_append
    obtain rfl | rfl := h_eol
    · rw [endsWithContinuation_concat, if_neg (by decide)]
    · rw [show joinWith [CR, LF] (part :: parts) ++ [CR, LF] =
        (joinWith [CR, LF] (part :: parts) ++ [CR]) ++ [LF] by simp,
        endsWithContinuation_concat, if_neg (by decide)]

/-! ## Lines that are read back -/

/-- The key and the value of an entry. -/
def Line.content : Line → Option (Text × Text)
  | .text _ => none
  | .entry key value _ => some (key, value)

/-- An untouched entry that ends in an odd number of backslashes. -/
def Line.dangles : Line → Bool
  | .entry _ _ (some raw) => endsWithContinuation raw
  | _ => false

/-- The physical lines a line is written as. -/
structure WrittenAs (eol : Text) (line : Line) (parts : List Text) : Prop where
  written : line.written = joinWith eol parts
  nonempty : parts ≠ []
  oneLine : ∀ p ∈ parts, OneLine p

/-- Written and read again, the line is the same entry, or a note. -/
def Closed (eol : Text) (line : Line) : Prop :=
  ∃ parts, WrittenAs eol line parts ∧ ∀ eol', ∃ line',
    readLines eol' none parts = ([line'], none) ∧ line'.content = line.content

/-- Written and read again, the line is the same entry once it is flushed. -/
def Open (eol : Text) (line : Line) : Prop :=
  ∃ parts, WrittenAs eol line parts ∧ ∃ p : Pending, endsWithContinuation p.logical = true ∧
    some (parseEntry p.logical.dropLast) = line.content ∧
    ∀ eol', readLines eol' none parts = ([], some p)

/-- Closed or, where a backslash dangles at its end, open. -/
structure Fine (eol : Text) (line : Line) : Prop where
  closed : line.dangles = false → Closed eol line
  dangling : line.dangles = true → Open eol line

theorem Fine.of_closed {eol : Text} {line : Line} (h_dangles : line.dangles = false)
    (h : Closed eol line) : Fine eol line :=
  ⟨fun _ => h, fun h_not => by rw [h_dangles] at h_not; cases h_not⟩

/-- An entry that has been changed is written so that it is read back. -/
theorem fine_written (eol : Text) {key : Text} (value : Text) (h : losesStart key = false) :
    Fine eol (.entry key value none) := by
  apply Fine.of_closed rfl
  refine ⟨[escapeKey key ++ EQUALS :: escapeValue value], ⟨?_, by simp, ?_⟩, fun eol' => ?_⟩
  · rw [joinWith, List.intercalate_singleton]
    rfl
  · intro p h_p
    rw [List.mem_singleton.mp h_p, oneLine_append, oneLine_cons]
    exact ⟨oneLine_escapeKey key, by decide, by decide, oneLine_escapeValue value⟩
  · obtain ⟨c, rest, h_text, h_trimmed, h_hash, h_bang⟩ := startsEntry_written value h
    have h_head : (escapeKey key ++ EQUALS :: escapeValue value).dropWhile isTrimmed =
        escapeKey key ++ EQUALS :: escapeValue value := by
      rw [h_text, List.dropWhile_cons, if_neg (by simp [h_trimmed])]
    have h_note : isNote (escapeKey key ++ EQUALS :: escapeValue value) = false := by
      rw [h_text, isNote]
      simp [h_hash, h_bang]
    refine ⟨entryOf eol' ⟨[escapeKey key ++ EQUALS :: escapeValue value],
      escapeKey key ++ EQUALS :: escapeValue value⟩, ?_, ?_⟩
    · simp [readLines, readLine, h_head, h_note, offer, endsWithContinuation_written]
    · simp only [entryOf, parseEntry_written]
      rfl

section Read

variable {eol : Text}

theorem readLines_append (st : Option Pending) (xs ys : List Text) :
    readLines eol st (xs ++ ys) =
      ((readLines eol st xs).1 ++ (readLines eol (readLines eol st xs).2 ys).1,
        (readLines eol (readLines eol st xs).2 ys).2) := by
  induction xs generalizing st with
  | nil => rfl
  | cons x xs ih => simp only [List.cons_append, readLines, ih, List.append_assoc]

/-- What is known of an entry that goes on. -/
structure Waiting (eol : Text) (p : Pending) : Prop where
  nonempty : p.rawParts ≠ []
  oneLine : ∀ part ∈ p.rawParts, OneLine part
  continues : endsWithContinuation p.logical = true
  raw : endsWithContinuation (joinWith eol p.rawParts) = true
  read : ∀ eol', readLines eol' none p.rawParts = ([], some p)

theorem waiting_none (eol : Text) : ∀ p ∈ (none : Option Pending), Waiting eol p := by simp

/-- An entry that is closed, or one that goes on, over physical lines that lead to it. -/
theorem fine_offer {p : Pending} (h_ne : p.rawParts ≠ [])
    (h_line : ∀ part ∈ p.rawParts, OneLine part)
    (h_raw : endsWithContinuation (joinWith eol p.rawParts) = endsWithContinuation p.logical)
    (h_read : ∀ eol', readLines eol' none p.rawParts = offer eol' p) :
    (∀ line ∈ (offer eol p).1, Fine eol line ∧ line.dangles = false) ∧
      ∀ p' ∈ (offer eol p).2, Waiting eol p' := by
  by_cases h_cont : endsWithContinuation p.logical = true
  · have h_offer : ∀ eol', offer eol' p = ([], some p) := fun eol' => by rw [offer, if_pos h_cont]
    rw [h_offer]
    refine ⟨by simp, fun p' h_p' => ?_⟩
    cases h_p'
    exact ⟨h_ne, h_line, h_cont, h_raw.trans h_cont, fun eol' => (h_read eol').trans (h_offer eol')⟩
  · have h_offer : ∀ eol', offer eol' p = ([entryOf eol' p], none) := fun eol' => by
      rw [offer, if_neg h_cont]
    rw [h_offer]
    refine ⟨fun line h_mem => ?_, by simp⟩
    rw [List.mem_singleton.mp h_mem]
    have h_dangles : (entryOf eol p).dangles = false :=
      h_raw.trans ((Bool.not_eq_true _).mp h_cont)
    refine ⟨Fine.of_closed h_dangles ⟨p.rawParts, ⟨rfl, h_ne, h_line⟩, fun eol' => ?_⟩, h_dangles⟩
    exact ⟨entryOf eol' p, (h_read eol').trans (h_offer eol'), rfl⟩

theorem fine_readLine (h_eol : IsEol eol) {st : Option Pending} (h_st : ∀ p ∈ st, Waiting eol p)
    {line : Text} (h_line : OneLine line) :
    (∀ l ∈ (readLine eol st line).1, Fine eol l ∧ l.dangles = false) ∧
      ∀ p ∈ (readLine eol st line).2, Waiting eol p := by
  cases st with
  | none =>
    by_cases h_note : isNote (line.dropWhile isTrimmed) = true
    · have h_read : ∀ eol', readLine eol' none line = ([.text line], none) := fun eol' => by
        rw [readLine, if_pos h_note]
      rw [h_read]
      refine ⟨fun l h_l => ?_, by simp⟩
      rw [List.mem_singleton.mp h_l]
      refine ⟨Fine.of_closed rfl ⟨[line], ⟨?_, by simp, by simpa using h_line⟩, fun eol' => ?_⟩, rfl⟩
      · rw [joinWith, List.intercalate_singleton]
        rfl
      · exact ⟨.text line, by simp [readLines, h_read], rfl⟩
    · have h_read : ∀ eol', readLine eol' none line =
          offer eol' ⟨[line], line.dropWhile isTrimmed⟩ := fun eol' => by
        rw [readLine, if_neg h_note]
      rw [h_read]
      apply fine_offer
      · simp
      · simpa using h_line
      · rw [joinWith, List.intercalate_singleton,
          endsWithContinuation_dropWhile (by decide)]
      · intro eol'
        simp [readLines, h_read]
  | some p =>
    have h_p := h_st p rfl
    rw [readLine]
    apply fine_offer
    · simp
    · intro part h_part
      obtain h_old | h_new := List.mem_append.mp h_part
      · exact h_p.oneLine part h_old
      · rwa [List.mem_singleton.mp h_new]
    · rw [endsWithContinuation_joinWith h_eol,
        endsWithContinuation_append (endsWithContinuation_dropLast h_p.continues),
        endsWithContinuation_dropWhile (by decide)]
    · intro eol'
      rw [readLines_append, h_p.read]
      simp [readLines, readLine]

theorem fine_readLines (h_eol : IsEol eol) {st : Option Pending} (h_st : ∀ p ∈ st, Waiting eol p)
    {lines : List Text} (h_lines : ∀ line ∈ lines, OneLine line) :
    (∀ l ∈ (readLines eol st lines).1, Fine eol l ∧ l.dangles = false) ∧
      ∀ p ∈ (readLines eol st lines).2, Waiting eol p := by
  induction lines generalizing st with
  | nil => exact ⟨by simp [readLines], h_st⟩
  | cons line lines ih =>
    obtain ⟨h_here, h_next⟩ := fine_readLine h_eol h_st (h_lines line List.mem_cons_self)
    obtain ⟨h_more, h_last⟩ := ih h_next fun l h_l => h_lines l (List.mem_cons_of_mem _ h_l)
    refine ⟨fun l h_l => ?_, h_last⟩
    obtain h_l | h_l := List.mem_append.mp h_l
    · exact h_here l h_l
    · exact h_more l h_l

/-- What is flushed is open. -/
theorem fine_flush {p : Pending} (line : Line) (h : Waiting eol p)
    (h_line : line ∈ flush eol (some p)) : Fine eol line ∧ line.dangles = true := by
  rw [List.mem_singleton.mp h_line]
  have h_dangles : (entryOf eol ⟨p.rawParts, p.logical.dropLast⟩).dangles = true := h.raw
  refine ⟨⟨fun h_not => ?_, fun _ => ?_⟩, h_dangles⟩
  · rw [h_dangles] at h_not
    cases h_not
  · exact ⟨p.rawParts, ⟨rfl, h.nonempty, h.oneLine⟩, p, h.continues, rfl, h.read⟩

end Read

/-! ## The text of a document -/

/-- Every line is read back, and only the last one may be open. -/
structure Tidy (eol : Text) (lines : List Line) : Prop where
  fine : ∀ line ∈ lines, Fine eol line
  inner : ∀ line ∈ lines.dropLast, line.dangles = false

/-- The entries, notes left out. -/
def contents (lines : List Line) : List (Text × Text) := lines.filterMap Line.content

theorem contents_cons (line : Line) (lines : List Line) :
    contents (line :: lines) = line.content.toList ++ contents lines := by
  cases line with
  | text raw => rfl
  | entry key value raw => rfl

@[simp] theorem contents_nil : contents [] = [] := rfl

theorem contents_append (xs ys : List Line) : contents (xs ++ ys) = contents xs ++ contents ys :=
  List.filterMap_append

/-- What the physical lines are read as. -/
def readAll (eol : Text) (physical : List Text) : List Line :=
  (readLines eol none physical).1 ++ flush eol (readLines eol none physical).2

section Reread

variable {eol : Text} {lines : List Line}

/-- The lines of a tidy document are written as physical lines that are read as its
    entries. -/
theorem exists_physical (h : Tidy eol lines) (h_ne : lines ≠ []) :
    ∃ physical, physical ≠ [] ∧ (∀ p ∈ physical, OneLine p) ∧
      joinWith eol (lines.map Line.written) = joinWith eol physical ∧
      ∀ eol', contents (readAll eol' physical) = contents lines := by
  induction lines with
  | nil => exact absurd rfl h_ne
  | cons line rest ih =>
    have h_line := h.fine line List.mem_cons_self
    cases rest with
    | nil =>
      have h_join : joinWith eol ([line].map Line.written) = line.written :=
        List.intercalate_singleton
      rw [h_join]
      by_cases h_dangles : line.dangles = true
      · obtain ⟨parts, h_written, p, -, h_content, h_read⟩ := h_line.dangling h_dangles
        refine ⟨parts, h_written.nonempty, h_written.oneLine, h_written.written, fun eol' => ?_⟩
        have h_all : readAll eol' parts = [entryOf eol' ⟨p.rawParts, p.logical.dropLast⟩] := by
          simp [readAll, h_read, flush]
        rw [h_all, contents_cons, contents_cons, ← h_content]
        rfl
      · obtain ⟨parts, h_written, h_read⟩ := h_line.closed ((Bool.not_eq_true _).mp h_dangles)
        refine ⟨parts, h_written.nonempty, h_written.oneLine, h_written.written, fun eol' => ?_⟩
        obtain ⟨line', h_parts, h_content⟩ := h_read eol'
        have h_all : readAll eol' parts = [line'] := by simp [readAll, h_parts, flush]
        rw [h_all, contents_cons, contents_cons, h_content]
    | cons next more =>
      -- A line before others is closed, so the reader is done with it when they begin.
      have h_inner := h.inner line (by simp)
      obtain ⟨parts, h_written, h_read⟩ := h_line.closed h_inner
      have h_rest : Tidy eol (next :: more) :=
        ⟨fun l h_l => h.fine l (List.mem_cons_of_mem _ h_l),
          fun l h_l => h.inner l (by simpa using .inr (by simpa using h_l))⟩
      obtain ⟨physical, h_phys, h_one, h_join, h_contents⟩ := ih h_rest (by simp)
      refine ⟨parts ++ physical, by simp [h_phys], fun p h_p => ?_, ?_, fun eol' => ?_⟩
      · obtain h_p | h_p := List.mem_append.mp h_p
        · exact h_written.oneLine p h_p
        · exact h_one p h_p
      · rw [joinWith_append h_written.nonempty h_phys, ← h_join, ← h_written.written, List.map_cons,
          joinWith, List.intercalate_cons_of_ne_nil (by simp), List.append_assoc]
        rfl
      · obtain ⟨line', h_parts, h_content⟩ := h_read eol'
        have h_all : readAll eol' (parts ++ physical) = line' :: readAll eol' physical := by
          simp [readAll, readLines_append, h_parts]
        rw [h_all, contents_cons, contents_cons, h_contents, h_content]

/-- An empty line at the end adds nothing. -/
theorem contents_readAll_concat_nil (h_eol : IsEol eol) {physical : List Text}
    (h_one : ∀ p ∈ physical, OneLine p) :
    contents (readAll eol (physical ++ [[]])) = contents (readAll eol physical) := by
  have h_wait := (fine_readLines h_eol (waiting_none eol) h_one).2
  simp only [readAll, readLines_append]
  cases h_st : (readLines eol none physical).2 with
  | none =>
    have h_note : readLine eol none [] = ([.text []], none) := rfl
    simp [readLines, h_note, flush, contents, Line.content]
  | some p =>
    have h_p := h_wait p h_st
    have h_end := endsWithContinuation_dropLast h_p.continues
    simp [readLines, readLine, offer, h_end, flush, contents, entryOf, Line.content]

theorem isEol_parse (text : Text) : IsEol (parse text).eol := by
  simp only [parse]
  split
  · exact .inr rfl
  · exact .inl rfl

/-- The lines of a parsed text. -/
theorem parse_lines (text : Text) :
    (parse text).lines = readAll (parse text).eol
      (if text == [] || (splitLines text).getLast? == some [] then (splitLines text).dropLast
        else splitLines text) := rfl

/-- A tidy document is read back with its entries. -/
theorem contents_parse_toText {doc : PropertiesDocument} (h_eol : IsEol doc.eol)
    (h : Tidy doc.eol doc.lines) : contents (parse doc.toText).lines = contents doc.lines := by
  by_cases h_ne : doc.lines = []
  · simp [PropertiesDocument.toText, h_ne, joinWith]
    decide
  · obtain ⟨physical, h_phys, h_one, h_join, h_contents⟩ := exists_physical h h_ne
    rw [parse_lines]
    cases h_trailing : doc.trailingEol with
    | true =>
      -- The line end at the end makes an empty line, which the reader drops.
      have h_text : doc.toText = joinWith doc.eol (physical ++ [[]]) := by
        rw [joinWith_append h_phys (by simp), PropertiesDocument.toText, h_join]
        simp [h_trailing, h_ne, joinWith]
      have h_split : splitLines doc.toText = physical ++ [[]] := by
        rw [h_text]
        refine splitLines_joinWith h_eol (fun l h_l => ?_) (by simp)
        obtain h_l | h_l := List.mem_append.mp h_l
        · exact h_one l h_l
        · rw [List.mem_singleton.mp h_l]
          exact oneLine_nil
      rw [h_split, List.getLast?_concat, List.dropLast_concat]
      simp only [beq_self_eq_true, Bool.or_true, if_true]
      exact h_contents _
    | false =>
      have h_text : doc.toText = joinWith doc.eol physical := by
        rw [PropertiesDocument.toText, h_join]
        simp [h_trailing]
      have h_split : splitLines doc.toText = physical := by
        rw [h_text]
        exact splitLines_joinWith h_eol h_one h_phys
      rw [h_split]
      by_cases h_empty : physical.getLast? = some []
      · -- An empty line at the end is dropped, which makes no difference.
        obtain ⟨init, rfl⟩ := List.getLast?_eq_some_iff.mp h_empty
        have h_init : ∀ p ∈ init, OneLine p := fun p h_p => h_one p (List.mem_append_left _ h_p)
        rw [if_pos (by simp), List.dropLast_concat,
          ← contents_readAll_concat_nil (isEol_parse _) h_init]
        exact h_contents _
      · have h_some : doc.toText ≠ [] := by
          intro h_nil
          rw [h_nil] at h_split
          exact h_empty (h_split ▸ rfl)
        rw [if_neg (by simp [h_some, h_empty])]
        exact h_contents _

/-- A parsed document is tidy. -/
theorem tidy_parse (text : Text) : Tidy (parse text).eol (parse text).lines := by
  rw [parse_lines]
  have h_one : ∀ p ∈ (if text == [] || (splitLines text).getLast? == some [] then
      (splitLines text).dropLast else splitLines text), OneLine p := by
    intro p h_p
    split at h_p
    · exact oneLine_of_mem_splitFrom (List.dropLast_subset _ h_p)
    · exact oneLine_of_mem_splitFrom h_p
  obtain ⟨h_read, h_wait⟩ := fine_readLines (isEol_parse text) (waiting_none _) h_one
  rw [readAll]
  cases h_st : (readLines (parse text).eol none (if text == [] ||
      (splitLines text).getLast? == some [] then (splitLines text).dropLast
      else splitLines text)).2 with
  | none =>
    rw [flush, List.append_nil]
    exact ⟨fun l h_l => (h_read l h_l).1, fun l h_l => (h_read l (List.dropLast_subset _ h_l)).2⟩
  | some p =>
    have h_last := fun l => fine_flush l (h_wait p h_st)
    refine ⟨fun l h_l => ?_, fun l h_l => ?_⟩
    · obtain h_l | h_l := List.mem_append.mp h_l
      · exact (h_read l h_l).1
      · exact (h_last l h_l).1
    · rw [flush, List.dropLast_concat] at h_l
      exact (h_read l h_l).2

end Reread

end Kubek.Properties
