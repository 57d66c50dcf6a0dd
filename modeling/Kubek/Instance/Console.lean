/-
  Kubek.Instance.Console

  The console of an instance: what the output of a server leaves in it (`InstanceConsole`,
  `InstanceLog` and the output callbacks of the runtimes), while no completion is in flight.

  A runtime decodes every chunk on its own and hands the text on; the log keeps a half line
  until its end comes. So the console does not depend on how the output is cut as long as no
  cut is within a character and, in a terminal, no later chunk begins with a byte order mark
  (`receiveAll_eq`). A chunk that ends within a character is decoded with a replacement
  character.
-/

import Kubek.Lib.Regex
import Kubek.Lib.Utf8
import Kubek.Properties.Document

namespace Kubek.Instance.Console

open Properties (CodeUnit LF CR isTrimmed)

abbrev Text := List CodeUnit

abbrev Bytes := List UInt8

/-! ## Lines -/

def ESC : CodeUnit := 0x1B
def CSI : CodeUnit := 0x9B
def BEL : CodeUnit := 0x07
def SEMICOLON : CodeUnit := 0x3B
def GREATER : CodeUnit := 0x3E

/-- One of the units of a text. -/
def oneOf (units : List Nat) : Regex := .unit fun c => units.contains c.toNat

def isDigit (c : CodeUnit) : Bool := 0x30 ≤ c.toNat && c.toNat ≤ 0x39

def isLetter (c : CodeUnit) : Bool :=
  (0x41 ≤ c.toNat && c.toNat ≤ 0x5A) || (0x61 ≤ c.toNat && c.toNat ≤ 0x7A)

/-- `[\dA-PR-TZcf-ntqry=><~]`. -/
def isFinal (c : CodeUnit) : Bool :=
  let n := c.toNat
  isDigit c || (0x41 ≤ n && n ≤ 0x50) || (0x52 ≤ n && n ≤ 0x54) || n == 0x5A || n == 0x63 ||
    (0x66 ≤ n && n ≤ 0x6E) || n == 0x74 || n == 0x71 || n == 0x72 || n == 0x79 || n == 0x3D ||
    n == 0x3E || n == 0x3C || n == 0x7E

/-- `ANSI_RE`. -/
def ANSI_RE : Regex :=
  let word := Regex.star (.unit fun c => isLetter c || isDigit c)
  let semicolon := Regex.unit (· == SEMICOLON)
  let digit := Regex.unit isDigit
  .seq (.unit fun c => c == ESC || c == CSI)
    (.seq (.star (oneOf [0x5B, 0x5D, 0x28, 0x29, 0x23, 0x3B, 0x3F]))
      (.alt
        (.seq (.opt (.seq word (.star (.seq semicolon word)))) (.unit (· == BEL)))
        (.seq
          (.opt (.seq (.seq digit (.upTo digit 3))
            (.star (.seq semicolon (.upTo digit 4)))))
          (.unit isFinal))))

def stripAnsi (input : Text) : Text := ANSI_RE.removeAll input

/-- `replace(/\s+$/, "")`. -/
def trimEnd (text : Text) : Text := (text.reverse.dropWhile isTrimmed).reverse

/-- What is behind the last CR. -/
def lastPaint (text : Text) : Text := (text.reverse.takeWhile (· != CR)).reverse

structure NormalizedLine where
  display : Text
  clean : Text
  deriving DecidableEq

/-- `normalizeLine`. -/
def normalizeLine (rawLine : Text) : Option NormalizedLine :=
  let display := lastPaint (trimEnd rawLine)
  let clean := trimEnd (stripAnsi display)
  match clean with
  | [] => none
  | c :: rest =>
      -- the prompt echo of a command
      if c = GREATER ∧ (rest.head?.all isTrimmed) = true then none else some ⟨display, clean⟩

/-! ## The log -/

/-- `split("\n")`. -/
def splitLn : Text → List Text
  | [] => [[]]
  | c :: text =>
      if c = LF then [] :: splitLn text
      else
        match splitLn text with
        | [] => [[c]]
        | line :: rest => (c :: line) :: rest

theorem splitLn_ne_nil (text : Text) : splitLn text ≠ [] := by
  cases text with
  | nil => simp [splitLn]
  | cons c text =>
    rw [splitLn]
    split
    · simp
    · split <;> simp

theorem lf_not_mem_of_mem_splitLn {text line : Text} (h : line ∈ splitLn text) : LF ∉ line := by
  induction text generalizing line with
  | nil =>
    rw [splitLn, List.mem_singleton] at h
    rw [h]
    exact List.not_mem_nil
  | cons c text ih =>
    rw [splitLn] at h
    by_cases h_lf : c = LF
    · rw [if_pos h_lf] at h
      obtain rfl | h := List.mem_cons.mp h
      · exact List.not_mem_nil
      · exact ih h
    · rw [if_neg h_lf] at h
      cases h_split : splitLn text with
      | nil => exact absurd h_split (splitLn_ne_nil text)
      | cons first rest =>
        simp only [h_split] at h
        obtain rfl | h := List.mem_cons.mp h
        · rw [List.mem_cons, not_or]
          exact ⟨Ne.symm h_lf, ih (by rw [h_split]; exact List.mem_cons_self)⟩
        · exact ih (by rw [h_split]; exact List.mem_cons_of_mem _ h)

/-- The part behind the last LF. -/
def lastPart (text : Text) : Text := (splitLn text).getLast (splitLn_ne_nil text)

theorem lf_not_mem_lastPart (text : Text) : LF ∉ lastPart text :=
  lf_not_mem_of_mem_splitLn (List.getLast_mem _)

def MAX_LINES : Nat := 100

/-- The console of an instance: the last entries, all that were shown, the unfinished line, and
    the status and the diagnostics that are derived from the lines. -/
structure InstanceConsole (σ : Type) where
  entries : List Text
  shown : List Text
  pending : Text
  derived : σ
  half : LF ∉ pending

section Feed

variable {σ : Type} (onLine : σ → Text → σ)

/-- `emit`: log the line, then hand its plain text on. -/
def emit (console : InstanceConsole σ) (rawLine : Text) : InstanceConsole σ :=
  match normalizeLine rawLine with
  | none => console
  | some line =>
      { console with
        entries := (console.entries ++ [line.display]).drop
          ((console.entries ++ [line.display]).length - MAX_LINES)
        shown := console.shown ++ [line.display]
        derived := onLine console.derived line.clean }

/-- `feed`, with no completion in flight. -/
def feed (console : InstanceConsole σ) (data : Text) : InstanceConsole σ :=
  (splitLn (console.pending ++ data)).dropLast.foldl (emit onLine)
    { console with
      pending := lastPart (console.pending ++ data)
      half := lf_not_mem_lastPart (console.pending ++ data) }

/-- `close`: the process is gone. -/
def close (console : InstanceConsole σ) : InstanceConsole σ :=
  let closed := { console with pending := [], half := List.not_mem_nil }
  if console.pending = [] then closed else emit onLine closed console.pending

/-! ## Output callbacks -/

/-- How a runtime hands its output on. -/
inductive Callback
  /-- `decoder.decode(bytes)` of a terminal. -/
  | pty
  /-- `chunk.toString()` of a pipe. -/
  | piped
  /-- `chunk.toString()` of the stream of a container. -/
  | docker

/-- `Buffer.toString()`. -/
def bufferText (bytes : Bytes) : Text := Utf8.units (Utf8.decode bytes)

def Callback.text : Callback → Bytes → Text
  | .pty => Utf8.decodeText
  | .piped => bufferText
  | .docker => bufferText

/-- One chunk. -/
def receive (callback : Callback) (console : InstanceConsole σ) (chunk : Bytes) :
    InstanceConsole σ :=
  feed onLine console (callback.text chunk)

def receiveAll (callback : Callback) (console : InstanceConsole σ) (chunks : List Bytes) :
    InstanceConsole σ :=
  chunks.foldl (receive onLine callback) console

end Feed

/-! ## Cuts -/

/-- The bytes end between two characters. -/
def EndsBetween (bytes : Bytes) : Prop := (Utf8.feed none bytes).1 = none

def BOM_BYTES : Bytes := [0xEF, 0xBB, 0xBF]

/-- A cut that the callback does not notice. -/
def Callback.Unnoticed : Callback → Bytes → Bytes → Prop
  | .pty, before, after => EndsBetween before ∧ (before ≠ [] → ¬ BOM_BYTES <+: after)
  | .piped, before, _ => EndsBetween before
  | .docker, before, _ => EndsBetween before

/-- No cut is within a character, and in a terminal no chunk behind others begins with a byte
    order mark. -/
def Callback.CutsBetween (callback : Callback) (chunks : List Bytes) : Prop :=
  ∀ before after, chunks = before ++ after → after.flatten ≠ [] →
    callback.Unnoticed before.flatten after.flatten

/-! ## Feeding in parts -/

/-- Lines of a text with more behind it. -/
theorem splitLn_append (xs ys : Text) :
    splitLn (xs ++ ys) = (splitLn xs).dropLast ++ splitLn (lastPart xs ++ ys) := by
  induction xs with
  | nil => rfl
  | cons c xs ih =>
    rw [List.cons_append, splitLn]
    by_cases h_lf : c = LF
    · have h_split : splitLn (c :: xs) = [] :: splitLn xs := by rw [splitLn, if_pos h_lf]
      have h_last : lastPart (c :: xs) = lastPart xs := by
        simp only [lastPart, h_split, List.getLast_cons (splitLn_ne_nil xs)]
      rw [if_pos h_lf, ih, h_last, h_split, List.dropLast_cons_of_ne_nil (splitLn_ne_nil xs)]
      rfl
    · rw [if_neg h_lf, ih]
      cases h_xs : splitLn xs with
      | nil => exact absurd h_xs (splitLn_ne_nil xs)
      | cons first rest =>
        have h_split : splitLn (c :: xs) = (c :: first) :: rest := by
          rw [splitLn, if_neg h_lf, h_xs]
        cases rest with
        | nil =>
          have h_part : lastPart xs = first := by simp only [lastPart, h_xs, List.getLast_singleton]
          have h_last : lastPart (c :: xs) = c :: first := by
            simp only [lastPart, h_split, List.getLast_singleton]
          rw [h_last, h_part, h_split]
          simp only [List.dropLast_singleton, List.nil_append, List.cons_append]
          rw [splitLn, if_neg h_lf]
        | cons second more =>
          have h_last : lastPart (c :: xs) = lastPart xs := by
            simp only [lastPart, h_split, h_xs, List.getLast_cons_cons]
          rw [h_last, h_split]
          rfl

theorem lastPart_append (xs ys : Text) : lastPart (xs ++ ys) = lastPart (lastPart xs ++ ys) := by
  have h_split := splitLn_append xs ys
  have h_ne := splitLn_ne_nil (lastPart xs ++ ys)
  simp only [lastPart] at h_ne ⊢
  simp only [h_split, lastPart, List.getLast_append_of_ne_nil _ h_ne]

theorem splitLn_of_not_mem {text : Text} (h : LF ∉ text) : splitLn text = [text] := by
  induction text with
  | nil => rfl
  | cons c text ih =>
    rw [List.mem_cons, not_or] at h
    rw [splitLn, if_neg (Ne.symm h.1), ih h.2]

section Feed

variable {σ : Type} (onLine : σ → Text → σ)

theorem feed_nil (console : InstanceConsole σ) : feed onLine console [] = console := by
  have h_split := splitLn_of_not_mem console.half
  have h_last : lastPart console.pending = console.pending := by
    simp only [lastPart, h_split, List.getLast_singleton]
  obtain ⟨entries, shown, pending, derived, half⟩ := console
  simp only at h_split h_last
  simp only [feed, List.append_nil, h_split, h_last, List.dropLast_singleton, List.foldl_nil]

theorem pending_emit (console : InstanceConsole σ) (line : Text) :
    (emit onLine console line).pending = console.pending := by
  rw [emit]
  split <;> rfl

theorem pending_foldl_emit (console : InstanceConsole σ) (lines : List Text) :
    (lines.foldl (emit onLine) console).pending = console.pending := by
  induction lines generalizing console with
  | nil => rfl
  | cons line lines ih => rw [List.foldl_cons, ih, pending_emit]

/-- The console with another unfinished line. -/
def withPending (console : InstanceConsole σ) (text : Text) (h : LF ∉ text) : InstanceConsole σ :=
  { console with pending := text, half := h }

theorem emit_withPending (console : InstanceConsole σ) (line text : Text) (h : LF ∉ text) :
    emit onLine (withPending console text h) line = withPending (emit onLine console line) text h := by
  rw [emit, emit]
  cases normalizeLine line <;> rfl

theorem foldl_emit_withPending (console : InstanceConsole σ) (lines : List Text) (text : Text)
    (h : LF ∉ text) :
    lines.foldl (emit onLine) (withPending console text h) =
      withPending (lines.foldl (emit onLine) console) text h := by
  induction lines generalizing console with
  | nil => rfl
  | cons line lines ih => rw [List.foldl_cons, List.foldl_cons, emit_withPending, ih]

theorem feed_eq (console : InstanceConsole σ) (data : Text) :
    feed onLine console data =
      withPending ((splitLn (console.pending ++ data)).dropLast.foldl (emit onLine) console)
        (lastPart (console.pending ++ data)) (lf_not_mem_lastPart _) :=
  foldl_emit_withPending onLine console _ _ _

/-- Two texts one after the other are fed as one. -/
theorem feed_append (console : InstanceConsole σ) (xs ys : Text) :
    feed onLine console (xs ++ ys) = feed onLine (feed onLine console xs) ys := by
  have h_pending : (feed onLine console xs).pending = lastPart (console.pending ++ xs) := by
    rw [feed_eq]
    rfl
  have h_assoc : console.pending ++ (xs ++ ys) = (console.pending ++ xs) ++ ys :=
    (List.append_assoc _ _ _).symm
  have h_lines : (splitLn (console.pending ++ (xs ++ ys))).dropLast =
      (splitLn (console.pending ++ xs)).dropLast ++
        (splitLn (lastPart (console.pending ++ xs) ++ ys)).dropLast := by
    rw [h_assoc, splitLn_append, List.dropLast_append_of_ne_nil (splitLn_ne_nil _)]
  have h_last : lastPart (console.pending ++ (xs ++ ys)) =
      lastPart (lastPart (console.pending ++ xs) ++ ys) := by
    rw [h_assoc, lastPart_append]
  have h_second : ∀ (c : InstanceConsole σ) (p : Text), c.pending = p → feed onLine c ys =
      withPending ((splitLn (p ++ ys)).dropLast.foldl (emit onLine) c) (lastPart (p ++ ys))
        (lf_not_mem_lastPart _) := by
    rintro c _ rfl
    exact feed_eq onLine c ys
  rw [h_second _ _ h_pending, feed_eq onLine console xs, foldl_emit_withPending, feed_eq]
  simp only [h_lines, h_last, List.foldl_append]
  rfl

theorem receiveAll_eq_feed (callback : Callback) (console : InstanceConsole σ)
    (chunks : List Bytes) :
    receiveAll onLine callback console chunks =
      feed onLine console (chunks.map callback.text).flatten := by
  induction chunks generalizing console with
  | nil => exact (feed_nil onLine console).symm
  | cons chunk chunks ih =>
    rw [List.map_cons, List.flatten_cons, feed_append, ← receive, ← ih]
    rfl

end Feed

/-! ## Decoding in parts -/

theorem feed_of_endsBetween {xs : Bytes} (h : EndsBetween xs) (ys : Bytes) :
    Utf8.feed none (xs ++ ys) =
      ((Utf8.feed none ys).1, (Utf8.feed none xs).2 ++ (Utf8.feed none ys).2) := by
  rw [Utf8.feed_append, show (Utf8.feed none xs).1 = none from h]

theorem bufferText_append {xs : Bytes} (h : EndsBetween xs) (ys : Bytes) :
    bufferText (xs ++ ys) = bufferText xs ++ bufferText ys := by
  have h_flush : Utf8.flush (Utf8.feed none xs).1 = [] := by
    rw [show (Utf8.feed none xs).1 = none from h]
    rfl
  rw [bufferText, bufferText, bufferText, Utf8.decode, Utf8.decode, Utf8.decode, h_flush,
    feed_of_endsBetween h, List.append_nil, ← Utf8.units_append, List.append_assoc]

/-- A byte that ends a character yields one. -/
theorem step_ne_nil {s : Utf8.State} {b : UInt8} (h : (Utf8.step s b).1 = none) :
    (Utf8.step s b).2 ≠ [] := by
  have h_first : ∀ b : UInt8, (Utf8.first b).1 = none → (Utf8.first b).2 ≠ [] := by
    intro b h
    unfold Utf8.first at h ⊢
    simp only at h ⊢
    split
    · simp
    · rename_i h1
      rw [if_neg h1] at h
      split
      · rename_i h2
        rw [if_pos h2] at h
        cases h
      · rename_i h2
        rw [if_neg h2] at h
        split
        · rename_i h3
          rw [if_pos h3] at h
          cases h
        · rename_i h3
          rw [if_neg h3] at h
          split
          · rename_i h4
            rw [if_pos h4] at h
            cases h
          · simp
  cases s with
  | none => exact h_first b h
  | some q =>
    rw [Utf8.step] at h ⊢
    split
    · split
      · simp
      · rename_i h_range h_left
        rw [if_pos h_range, if_neg h_left] at h
        cases h
    · simp

/-- Bytes that end between two characters are some character. -/
theorem feed_ne_nil {s : Utf8.State} {xs : Bytes} (h_ne : xs ≠ [])
    (h : (Utf8.feed s xs).1 = none) : (Utf8.feed s xs).2 ≠ [] := by
  induction xs generalizing s with
  | nil => exact absurd rfl h_ne
  | cons b xs ih =>
    rw [Utf8.feed] at h ⊢
    cases xs with
    | nil =>
      intro h_nil
      exact step_ne_nil h (List.append_eq_nil_iff.mp h_nil).1
    | cons c xs =>
      intro h_nil
      exact ih (by simp) h (List.append_eq_nil_iff.mp h_nil).2

/-- The first character within a sequence. -/
theorem head?_feed_some {q : Utf8.Sequence} {ys : Bytes}
    (h : (Utf8.feed (some q) ys).2.head? = some Utf8.BOM) :
    ∃ b rest, ys = b :: rest ∧ q.lower ≤ b.toNat ∧ b.toNat ≤ q.upper ∧
      if q.left = 1 then q.bits * 64 + (b.toNat - 0x80) = Utf8.BOM
      else (Utf8.feed (some ⟨q.left - 1, 0x80, 0xBF, q.bits * 64 + (b.toNat - 0x80)⟩) rest).2.head? =
        some Utf8.BOM := by
  cases ys with
  | nil => cases h
  | cons b rest =>
    rw [Utf8.feed, Utf8.step] at h
    by_cases h_range : q.lower ≤ b.toNat ∧ b.toNat ≤ q.upper
    · refine ⟨b, rest, rfl, h_range.1, h_range.2, ?_⟩
      rw [if_pos h_range] at h
      by_cases h_left : q.left = 1
      · rw [if_pos h_left] at h ⊢
        simpa using h
      · rw [if_neg h_left] at h ⊢
        simpa using h
    · rw [if_neg h_range] at h
      have h_eq : Utf8.REPLACEMENT = Utf8.BOM := by simpa using h
      cases h_eq

/-- Only the bytes of a byte order mark are decoded as one. -/
theorem bom_of_head? {ys : Bytes} (h : (Utf8.feed none ys).2.head? = some Utf8.BOM) :
    BOM_BYTES <+: ys := by
  cases ys with
  | nil => cases h
  | cons b rest =>
    have h_bom : Utf8.BOM = 0xFEFF := rfl
    rw [Utf8.feed, Utf8.step, Utf8.first] at h
    simp only at h
    split at h
    · -- one byte
      have h_eq : b.toNat = Utf8.BOM := by simpa using h
      omega
    · split at h
      · -- two bytes
        rename_i h_b
        rw [List.nil_append] at h
        obtain ⟨c, more, -, -, h_c, h_char⟩ := head?_feed_some h
        simp only [if_true] at h_c h_char
        omega
      · split at h
        · -- three bytes
          rename_i h_b
          rw [List.nil_append] at h
          obtain ⟨c, more, rfl, h_lower, h_upper, h_next⟩ := head?_feed_some h
          simp only [show ¬ (2 = 1) by decide, if_false] at h_next
          obtain ⟨d, tail, rfl, h_d, h_d', h_char⟩ := head?_feed_some h_next
          simp only [if_true] at h_d h_d' h_char
          have h_c : c.toNat ≤ 0xBF := by
            simp only at h_upper
            split at h_upper <;> omega
          have h_c' : 0x80 ≤ c.toNat := by
            simp only at h_lower
            split at h_lower <;> omega
          have h_first : b = 0xEF := UInt8.toNat_inj.mp (show b.toNat = 0xEF by omega)
          have h_second : c = 0xBB := UInt8.toNat_inj.mp (show c.toNat = 0xBB by omega)
          have h_third : d = 0xBF := UInt8.toNat_inj.mp (show d.toNat = 0xBF by omega)
          rw [h_first, h_second, h_third]
          exact ⟨tail, rfl⟩
        · split at h
          · -- four bytes
            rename_i h_b
            rw [List.nil_append] at h
            obtain ⟨c, more, rfl, h_lower, h_upper, h_next⟩ := head?_feed_some h
            simp only [show ¬ (3 = 1) by decide, if_false] at h_next
            obtain ⟨d, tail, rfl, h_d, h_d', h_next⟩ := head?_feed_some h_next
            simp only [show ¬ (3 - 1 = 1) by decide, if_false] at h_next
            obtain ⟨e, tail, rfl, h_e, h_e', h_char⟩ := head?_feed_some h_next
            simp only [if_true] at h_d h_d' h_e h_e' h_char
            simp only at h_lower
            split at h_lower <;> omega
          · have h_eq : Utf8.REPLACEMENT = Utf8.BOM := by simpa using h
            cases h_eq

theorem decodeText_eq (bytes : Bytes) :
    Utf8.decodeText bytes =
      Utf8.units (Utf8.TextDecoder.withoutBom false (Utf8.feed none bytes).2) ++
        Utf8.units (Utf8.flush (Utf8.feed none bytes).1) := rfl

theorem decodeText_append {xs ys : Bytes} (h : EndsBetween xs)
    (h_bom : xs ≠ [] → ¬ BOM_BYTES <+: ys) :
    Utf8.decodeText (xs ++ ys) = Utf8.decodeText xs ++ Utf8.decodeText ys := by
  have h_flush : Utf8.flush (Utf8.feed none xs).1 = [] := by
    rw [show (Utf8.feed none xs).1 = none from h]
    rfl
  by_cases h_xs : xs = []
  · rw [h_xs]
    rfl
  · have h_seen : (false || !(Utf8.feed none xs).2.isEmpty) = true := by
      have h_ne := feed_ne_nil h_xs h
      simpa using h_ne
    have h_same : Utf8.TextDecoder.withoutBom false (Utf8.feed none ys).2 =
        (Utf8.feed none ys).2 := by
      cases h_ys : (Utf8.feed none ys).2 with
      | nil => rfl
      | cons c rest =>
        have h_c : c ≠ Utf8.BOM := by
          rintro rfl
          exact h_bom h_xs (bom_of_head? (by rw [h_ys]; rfl))
        rw [Utf8.TextDecoder.withoutBom]
        simp [h_c]
    rw [decodeText_eq, decodeText_eq, decodeText_eq, feed_of_endsBetween h,
      Utf8.TextDecoder.withoutBom_append, h_seen, h_flush, h_same, Utf8.units_nil, List.append_nil,
      Utf8.units_append, List.append_assoc]
    rfl

/-! ## Every way of cutting -/

theorem text_append (callback : Callback) {xs ys : Bytes} (h : callback.Unnoticed xs ys) :
    callback.text (xs ++ ys) = callback.text xs ++ callback.text ys := by
  cases callback with
  | pty => exact decodeText_append h.1 h.2
  | piped => exact bufferText_append h ys
  | docker => exact bufferText_append h ys

theorem endsBetween_of_append {xs ys : Bytes} (h : EndsBetween xs) (h_all : EndsBetween (xs ++ ys)) :
    EndsBetween ys := by
  rw [EndsBetween, feed_of_endsBetween h] at h_all
  exact h_all

/-- A cut further on is one of the rest, too. -/
theorem Callback.Unnoticed.of_append {callback : Callback} {xs ys zs : Bytes}
    (h : callback.Unnoticed xs (ys ++ zs)) (h_all : callback.Unnoticed (xs ++ ys) zs) :
    callback.Unnoticed ys zs := by
  cases callback with
  | pty =>
    refine ⟨endsBetween_of_append h.1 h_all.1, fun h_ne => h_all.2 fun h_nil => h_ne ?_⟩
    exact (List.append_eq_nil_iff.mp h_nil).2
  | piped => exact endsBetween_of_append h h_all
  | docker => exact endsBetween_of_append h h_all

theorem text_nil (callback : Callback) : callback.text [] = [] := by
  cases callback <;> rfl

/-- What the chunks are decoded as is what all bytes are decoded as. -/
theorem text_flatten (callback : Callback) {chunks : List Bytes}
    (h : callback.CutsBetween chunks) :
    (chunks.map callback.text).flatten = callback.text chunks.flatten := by
  induction chunks with
  | nil => exact (text_nil callback).symm
  | cons chunk chunks ih =>
    have h_rest : callback.CutsBetween chunks := by
      rintro before after rfl h_ne
      have h_all := h (chunk :: before) after rfl h_ne
      have h_first := h [chunk] (before ++ after) rfl (by
        rw [List.flatten_append]
        exact fun h_nil => h_ne (List.append_eq_nil_iff.mp h_nil).2)
      rw [List.flatten_singleton, List.flatten_append] at h_first
      exact h_first.of_append h_all
    rw [List.map_cons, List.flatten_cons, List.flatten_cons, ih h_rest]
    by_cases h_ne : chunks.flatten = []
    · rw [h_ne, text_nil, List.append_nil, List.append_nil]
    · have h_cut := h [chunk] chunks rfl h_ne
      rw [List.flatten_singleton] at h_cut
      exact (text_append callback h_cut).symm

/-- However the output is cut between its characters: the lines that are logged, the half line,
    and the status and the diagnostics are those of the output in one chunk. -/
theorem receiveAll_eq {σ : Type} (onLine : σ → Text → σ) (callback : Callback)
    (console : InstanceConsole σ) (bytes : Bytes) (chunks : List Bytes)
    (h_bytes : chunks.flatten = bytes) (h : callback.CutsBetween chunks) :
    receiveAll onLine callback console chunks = receive onLine callback console bytes := by
  rw [receiveAll_eq_feed, text_flatten callback h, h_bytes, receive]

/-- A console that has shown nothing. -/
def fresh : InstanceConsole (List Text) := ⟨[], [], [], [], List.not_mem_nil⟩

/-- The letter é and a line end in two chunks of a terminal. -/
theorem receiveAll_eq_between :
    receiveAll (fun lines line => lines ++ [line]) .pty fresh [[0xC3, 0xA9], [0x0A]] =
      receive (fun lines line => lines ++ [line]) .pty fresh [0xC3, 0xA9, 0x0A] := by
  refine receiveAll_eq _ _ _ _ _ rfl ?_
  intro before after h h_ne
  match before, h with
  | [], _ => exact ⟨rfl, fun h_nil => absurd rfl h_nil⟩
  | [_], h =>
    cases h
    exact ⟨rfl, fun _ => by decide⟩
  | [_, _], h =>
    cases h
    exact absurd rfl h_ne

/-- The console shows the lines of the output in one chunk. -/
def ShowsAsWhole (callback : Callback) (chunks : List Bytes) : Prop :=
  (receiveAll (fun lines line => lines ++ [line]) callback fresh chunks).shown =
    (receive (fun lines line => lines ++ [line]) callback fresh chunks.flatten).shown

instance (callback : Callback) (chunks : List Bytes) : Decidable (ShowsAsWhole callback chunks) :=
  inferInstanceAs (Decidable (_ = _))

/-- The same with the cut within the letter: it is shown as two replacement characters,
    whichever runtime it comes from. -/
theorem split_character_is_garbled :
    ¬ ShowsAsWhole .pty [[0xC3], [0xA9, 0x0A]] ∧ ¬ ShowsAsWhole .piped [[0xC3], [0xA9, 0x0A]] ∧
      ¬ ShowsAsWhole .docker [[0xC3], [0xA9, 0x0A]] := by
  decide +kernel

end Kubek.Instance.Console
