/-
  Kubek.Assistant.EventStream

  The data payloads of a text/event-stream body (`readSseData` of sse.ts).

  Chunks are decoded and cut into lines as they come. A CR at the end of the buffer waits for
  the next chunk, as it may be half of a CR LF. At the end of the stream it still waits, and
  a data line before it keeps it as part of its text. On all other streams the payloads are
  those of the whole text, however it came in chunks (`readSseData_iff`).
-/

import Kubek.Lib.Utf8
import Kubek.Properties.Restore

namespace Kubek.Assistant.EventStream

open Properties (CodeUnit LF CR SPACE splitLines splitFrom joinWith OneLine)
open Utf8 (TextDecoder)

abbrev Text := List CodeUnit

abbrev Bytes := List UInt8

/-! ## Lines -/

/-- The text of a data line: what is behind `data:`, without one leading space. -/
def dataOf (line : Text) : Option Text :=
  if (Properties.unitsOf "data:").isPrefixOf line then
    let rest := line.drop 5
    some (if rest.head? = some SPACE then rest.drop 1 else rest)
  else none

/-- The first line of the buffer and what is behind it; `none` where no line end is sure. -/
def takeLine : Text → Option (Text × Text)
  | [] => none
  | c :: rest =>
      if c = LF then some ([], rest)
      else if c = CR then
        match rest with
        | [] => none
        | d :: more => if d = LF then some ([], more) else some ([], d :: more)
      else (takeLine rest).map fun next => (c :: next.1, next.2)

structure Reader where
  decoder : TextDecoder := {}
  buffer : Text := []
  data : List Text := []

namespace Reader

/-- A whole line: a blank one ends the event. -/
def onLine (data : List Text) (line : Text) : List Text × List Text :=
  if line = [] then ([], if data = [] then [] else [joinWith [LF] data])
  else
    match dataOf line with
    | some text => (data ++ [text], [])
    | none => (data, [])

/-- The loop over the buffer, at most so many times: the buffer, the data lines and what is
    yielded. -/
def drain : Nat → Text → List Text → Text × List Text × List Text
  | 0, buffer, data => (buffer, data, [])
  | fuel + 1, buffer, data =>
      match takeLine buffer with
      | none => (buffer, data, [])
      | some (line, rest) =>
          let next := onLine data line
          let more := drain fuel rest next.1
          (more.1, more.2.1, next.2 ++ more.2.2)

/-- One chunk. -/
def push (r : Reader) (chunk : Bytes) : Reader × List Text :=
  let decoded := r.decoder.decodeStream chunk
  let buffer := r.buffer ++ decoded.2
  let drained := drain buffer.length buffer r.data
  (⟨decoded.1, drained.1, drained.2.1⟩, drained.2.2)

def pushAll (r : Reader) : List Bytes → Reader × List Text
  | [] => (r, [])
  | chunk :: chunks =>
      let next := r.push chunk
      let rest := next.1.pushAll chunks
      (rest.1, next.2 ++ rest.2)

/-- The end of the stream. -/
def close (r : Reader) : List Text :=
  let data := match dataOf (r.buffer ++ r.decoder.decodeEnd) with
    | some text => r.data ++ [text]
    | none => r.data
  if data = [] then [] else [joinWith [LF] data]

end Reader

/-- `readSseData`. -/
def readSseData (chunks : List Bytes) : List Text :=
  let read := Reader.pushAll {} chunks
  read.2 ++ read.1.close

/-! ## The whole text -/

/-- The groups of lines between blank ones. -/
def groups : List Text → List (List Text)
  | [] => [[]]
  | line :: lines =>
      if line = [] then [] :: groups lines
      else
        match groups lines with
        | [] => [[line]]
        | group :: rest => (line :: group) :: rest

/-- The payload of a group; one without data lines has none. -/
def payload (group : List Text) : Option Text :=
  let data := group.filterMap dataOf
  if data = [] then none else some (joinWith [LF] data)

/-- The payloads of a text that is all there. -/
def payloads (text : Text) : List Text := (groups (splitLines text)).filterMap payload

/-- What of a body is decoded before its end. -/
def streamed (bytes : Bytes) : Text := (({} : TextDecoder).decodeStream bytes).2

/-- The text ends in a CR, and the line before it is a data line. -/
def EndsInDataCR (text : Text) : Prop :=
  text.getLast? = some CR ∧ ∃ line, (splitLines text.dropLast).getLast? = some line ∧
    (dataOf line).isSome = true

/-! ## Cutting lines -/

attribute [local simp] takeLine in
theorem takeLine_lf (rest : Text) : takeLine (LF :: rest) = some ([], rest) := by
  simp [takeLine]

theorem takeLine_crlf (rest : Text) : takeLine (CR :: LF :: rest) = some ([], rest) := by
  simp [takeLine, show CR ≠ LF by decide]

theorem takeLine_cr {d : CodeUnit} (h : d ≠ LF) (rest : Text) :
    takeLine (CR :: d :: rest) = some ([], d :: rest) := by
  simp [takeLine, h, show CR ≠ LF by decide]

theorem takeLine_unit {c : CodeUnit} (h_lf : c ≠ LF) (h_cr : c ≠ CR) (rest : Text) :
    takeLine (c :: rest) = (takeLine rest).map fun next => (c :: next.1, next.2) := by
  simp [takeLine, h_lf, h_cr]

/-- The cases of `takeLine`. -/
theorem takeLine_cases {P : Text → Prop} (nil : P []) (lf : ∀ rest, P (LF :: rest))
    (crEnd : P [CR]) (crlf : ∀ rest, P (CR :: LF :: rest))
    (cr : ∀ d rest, d ≠ LF → P (CR :: d :: rest))
    (unit : ∀ c rest, c ≠ LF → c ≠ CR → P rest → P (c :: rest)) (buffer : Text) : P buffer := by
  induction buffer with
  | nil => exact nil
  | cons c rest ih =>
    by_cases h_lf : c = LF
    · rw [h_lf]
      exact lf rest
    · by_cases h_cr : c = CR
      · rw [h_cr]
        cases rest with
        | nil => exact crEnd
        | cons d more =>
          by_cases h_d : d = LF
          · rw [h_d]
            exact crlf more
          · exact cr d more h_d
      · exact unit c rest h_lf h_cr ih

/-- What is taken from the buffer: a line, its end and the rest. -/
theorem takeLine_eq_some {buffer line rest : Text} (h : takeLine buffer = some (line, rest)) :
    ∃ eol, buffer = line ++ (eol ++ rest) ∧ OneLine line ∧
      (Properties.IsEol eol ∨ eol = [CR] ∧ ∃ d more, rest = d :: more ∧ d ≠ LF) := by
  revert line
  apply takeLine_cases (P := fun buffer => ∀ {line}, takeLine buffer = some (line, rest) →
    ∃ eol, buffer = line ++ (eol ++ rest) ∧ OneLine line ∧
      (Properties.IsEol eol ∨ eol = [CR] ∧ ∃ d more, rest = d :: more ∧ d ≠ LF))
  case nil =>
    intro line h
    cases h
  case lf =>
    intro more line h
    rw [takeLine_lf] at h
    cases h
    exact ⟨[LF], rfl, Properties.oneLine_nil, .inl (.inl rfl)⟩
  case crEnd =>
    intro line h
    cases h
  case crlf =>
    intro more line h
    rw [takeLine_crlf] at h
    cases h
    exact ⟨[CR, LF], rfl, Properties.oneLine_nil, .inl (.inr rfl)⟩
  case cr =>
    intro d more h_d line h
    rw [takeLine_cr h_d] at h
    cases h
    exact ⟨[CR], rfl, Properties.oneLine_nil, .inr ⟨rfl, d, more, rfl, h_d⟩⟩
  case unit =>
    intro c more h_lf h_cr ih line h
    rw [takeLine_unit h_lf h_cr, Option.map_eq_some_iff] at h
    obtain ⟨⟨line', rest'⟩, h_next, h_eq⟩ := h
    cases h_eq
    obtain ⟨eol, h_more, h_line, h_eol⟩ := ih h_next
    exact ⟨eol, by rw [h_more]; rfl, Properties.oneLine_cons.mpr ⟨h_lf, h_cr, h_line⟩, h_eol⟩

/-- What is left where no line end is sure: a line, with a CR behind it or not. -/
theorem takeLine_eq_none {buffer : Text} (h : takeLine buffer = none) :
    OneLine buffer ∨ ∃ line, OneLine line ∧ buffer = line ++ [CR] := by
  revert h
  apply takeLine_cases (P := fun buffer => takeLine buffer = none →
    OneLine buffer ∨ ∃ line, OneLine line ∧ buffer = line ++ [CR])
  case nil => exact fun _ => .inl Properties.oneLine_nil
  case lf =>
    intro rest h
    rw [takeLine_lf] at h
    cases h
  case crEnd => exact fun _ => .inr ⟨[], Properties.oneLine_nil, rfl⟩
  case crlf =>
    intro rest h
    rw [takeLine_crlf] at h
    cases h
  case cr =>
    intro d rest h_d h
    rw [takeLine_cr h_d] at h
    cases h
  case unit =>
    intro c rest h_lf h_cr ih h
    rw [takeLine_unit h_lf h_cr, Option.map_eq_none_iff] at h
    obtain h_line | ⟨line, h_line, rfl⟩ := ih h
    · exact .inl (Properties.oneLine_cons.mpr ⟨h_lf, h_cr, h_line⟩)
    · exact .inr ⟨c :: line, Properties.oneLine_cons.mpr ⟨h_lf, h_cr, h_line⟩, rfl⟩

/-- A line that was sure stays so, whatever comes behind. -/
theorem takeLine_append {buffer line rest : Text} (h : takeLine buffer = some (line, rest))
    (more : Text) : takeLine (buffer ++ more) = some (line, rest ++ more) := by
  obtain ⟨eol, rfl, h_line, h_eol⟩ := takeLine_eq_some h
  clear h
  induction line with
  | nil =>
    obtain (rfl | rfl) | ⟨rfl, d, next, rfl, h_d⟩ := h_eol
    · exact takeLine_lf _
    · exact takeLine_crlf _
    · exact takeLine_cr h_d _
  | cons c line ih =>
    obtain ⟨h_lf, h_cr, h_line⟩ := Properties.oneLine_cons.mp h_line
    rw [List.cons_append, List.cons_append, takeLine_unit h_lf h_cr, ih h_line]
    rfl

theorem length_of_takeLine {buffer line rest : Text} (h : takeLine buffer = some (line, rest)) :
    rest.length < buffer.length := by
  obtain ⟨eol, h_buffer, -, h_eol⟩ := takeLine_eq_some h
  have h_pos : 0 < eol.length := by
    obtain (rfl | rfl) | ⟨rfl, -⟩ := h_eol <;> simp
  rw [h_buffer, List.length_append, List.length_append]
  omega

/-- A CR ends a line, also a lone one before something else than a LF. -/
theorem splitLines_append_cr {line rest : Text} (h : OneLine line) (h_rest : rest.head? ≠ some LF) :
    splitLines (line ++ CR :: rest) = line :: splitLines rest := by
  induction line with
  | nil => exact Properties.splitLines_cr h_rest
  | cons c line ih =>
    obtain ⟨h_lf, h_cr, h_line⟩ := Properties.oneLine_cons.mp h
    have h_next : splitFrom false (line ++ CR :: rest) = line :: splitFrom false rest := ih h_line
    rw [splitLines, List.cons_append, splitFrom, if_neg h_lf, if_neg h_cr, h_next]
    rfl

/-- A line that is taken is the first one of the text. -/
theorem splitLines_of_takeLine {buffer line rest : Text}
    (h : takeLine buffer = some (line, rest)) : splitLines buffer = line :: splitLines rest := by
  obtain ⟨eol, rfl, h_line, h_eol | ⟨rfl, d, more, rfl, h_d⟩⟩ := takeLine_eq_some h
  · exact Properties.splitLines_append h_eol h_line rest
  · apply splitLines_append_cr h_line
    simpa using h_d

/-- Taking a line leaves the last code unit, where that is a CR. -/
theorem getLast?_of_takeLine {buffer line rest : Text} (h : takeLine buffer = some (line, rest)) :
    rest.getLast? = some CR ↔ buffer.getLast? = some CR := by
  obtain ⟨eol, rfl, -, h_eol⟩ := takeLine_eq_some h
  cases rest with
  | nil =>
    have h_last : (line ++ (eol ++ [])).getLast? = some LF := by
      obtain (rfl | rfl) | ⟨-, d, more, h_nil, -⟩ := h_eol
      · simp
      · simp
      · cases h_nil
    rw [h_last]
    decide
  | cons d more =>
    rw [← List.append_assoc, List.getLast?_append_of_ne_nil _ (List.cons_ne_nil d more)]

/-! ## Draining the buffer -/

namespace Reader

/-- The loop over the buffer, as often as it goes. -/
def settle (buffer : Text) (data : List Text) : Text × List Text × List Text :=
  drain buffer.length buffer data

attribute [local simp] drain in
/-- More rounds than the buffer has code units change nothing. -/
theorem drain_fuel {m n : Nat} {buffer : Text} (h_m : buffer.length ≤ m)
    (h_n : buffer.length ≤ n) (data : List Text) : drain m buffer data = drain n buffer data := by
  induction m generalizing n buffer data with
  | zero =>
    have h_nil : buffer = [] := List.length_eq_zero_iff.mp (by omega)
    cases n with
    | zero => rfl
    | succ n =>
      rw [h_nil]
      rfl
  | succ m ih =>
    cases n with
    | zero =>
      have h_nil : buffer = [] := List.length_eq_zero_iff.mp (by omega)
      rw [h_nil]
      rfl
    | succ n =>
      rw [drain, drain]
      cases h_take : takeLine buffer with
      | none => rfl
      | some next =>
        obtain ⟨line, rest⟩ := next
        have h_lt := length_of_takeLine h_take
        have h_rest : drain m rest (onLine data line).1 = drain n rest (onLine data line).1 :=
          ih (by omega) (by omega) _
        simp only [h_rest]

theorem settle_of_none {buffer : Text} (h : takeLine buffer = none) (data : List Text) :
    settle buffer data = (buffer, data, []) := by
  cases buffer with
  | nil => rfl
  | cons c buffer => rw [settle, List.length_cons, drain, h]

theorem settle_of_some {buffer line rest : Text} (h : takeLine buffer = some (line, rest))
    (data : List Text) :
    settle buffer data =
      let next := onLine data line
      let more := settle rest next.1
      (more.1, more.2.1, next.2 ++ more.2.2) := by
  have h_lt := length_of_takeLine h
  cases buffer with
  | nil => cases h
  | cons c buffer =>
    rw [List.length_cons] at h_lt
    have h_rest := drain_fuel (m := buffer.length) (n := rest.length) (by omega) (Nat.le_refl _)
      (onLine data line).1
    rw [settle, List.length_cons, drain, h]
    simp only [h_rest, settle]

/-- The rounds of the loop. -/
theorem settle_induction {P : Text → Prop} (done : ∀ buffer, takeLine buffer = none → P buffer)
    (round : ∀ buffer line rest, takeLine buffer = some (line, rest) → P rest → P buffer)
    (buffer : Text) : P buffer := by
  induction h_len : buffer.length using Nat.strong_induction_on generalizing buffer with
  | _ n ih =>
    cases h_take : takeLine buffer with
    | none => exact done buffer h_take
    | some next =>
      obtain ⟨line, rest⟩ := next
      have h_lt := length_of_takeLine h_take
      exact round buffer line rest h_take (ih rest.length (by omega) rest rfl)

/-- Nothing that is left can be taken. -/
theorem takeLine_settle (buffer : Text) (data : List Text) :
    takeLine (settle buffer data).1 = none := by
  induction buffer using settle_induction generalizing data with
  | done buffer h =>
    rw [settle_of_none h]
    exact h
  | round buffer line rest h ih =>
    rw [settle_of_some h]
    exact ih _

/-- Draining what came before first makes no difference. -/
theorem settle_append (buffer more : Text) (data : List Text) :
    settle (buffer ++ more) data =
      let first := settle buffer data
      let second := settle (first.1 ++ more) first.2.1
      (second.1, second.2.1, first.2.2 ++ second.2.2) := by
  induction buffer using settle_induction generalizing data with
  | done buffer h => rw [settle_of_none h]; rfl
  | round buffer line rest h ih =>
    rw [settle_of_some h, settle_of_some (takeLine_append h more)]
    simp only [ih, List.append_assoc]

/-! ## The lines of the whole text -/

/-- The lines one after the other: the data lines of the last event and what is yielded. -/
def onLines : List Text → List Text → List Text × List Text
  | data, [] => (data, [])
  | data, line :: lines =>
      let next := onLine data line
      let rest := onLines next.1 lines
      (rest.1, next.2 ++ rest.2)

/-- The event that the end of the stream ends. -/
def last (data : List Text) : List Text := if data = [] then [] else [joinWith [LF] data]

theorem onLine_blank (data : List Text) : onLine data [] = ([], last data) := rfl

theorem onLine_of_ne {line : Text} (h : line ≠ []) (data : List Text) :
    onLine data line = (data ++ (dataOf line).toList, []) := by
  rw [onLine, if_neg h]
  cases dataOf line with
  | none => rw [Option.toList_none, List.append_nil]
  | some text => rfl

attribute [local simp] onLines in
theorem onLines_append (data : List Text) (xs ys : List Text) :
    onLines data (xs ++ ys) =
      ((onLines (onLines data xs).1 ys).1,
        (onLines data xs).2 ++ (onLines (onLines data xs).1 ys).2) := by
  induction xs generalizing data with
  | nil => rfl
  | cons x xs ih =>
    simp only [List.cons_append, onLines, ih, List.append_assoc]

/-- The payload of a group, as a list. -/
theorem toList_payload (group : List Text) :
    (payload group).toList = last (group.filterMap dataOf) := by
  rw [payload, last]
  by_cases h : group.filterMap dataOf = []
  · simp only [h, if_true, Option.toList_none]
  · simp only [h, if_false, Option.toList_some]

theorem payloads_of_groups {group : List Text} {rest : List (List Text)} :
    (group :: rest).filterMap payload = last (group.filterMap dataOf) ++ rest.filterMap payload := by
  rw [List.filterMap_cons, ← toList_payload]
  cases payload group with
  | none => rfl
  | some text => rfl

/-- Line by line the payloads of the groups are yielded; the data lines in hand belong to the
    first group. -/
theorem onLines_eq (data lines : List Text) :
    ∃ group rest, groups lines = group :: rest ∧
      (onLines data lines).2 ++ last (onLines data lines).1 =
        last (data ++ group.filterMap dataOf) ++ rest.filterMap payload := by
  induction lines generalizing data with
  | nil => exact ⟨[], [], rfl, by simp [onLines]⟩
  | cons line lines ih =>
    rw [groups, onLines]
    by_cases h_blank : line = []
    · rw [if_pos h_blank, h_blank, onLine_blank]
      obtain ⟨group, rest, h_groups, h_eq⟩ := ih []
      refine ⟨[], groups lines, rfl, ?_⟩
      rw [List.nil_append] at h_eq
      rw [h_groups, payloads_of_groups, ← h_eq]
      simp [List.append_assoc]
    · rw [if_neg h_blank, onLine_of_ne h_blank]
      obtain ⟨group, rest, h_groups, h_eq⟩ := ih (data ++ (dataOf line).toList)
      refine ⟨line :: group, rest, by rw [h_groups], ?_⟩
      simp only [List.nil_append]
      rw [h_eq, List.append_assoc, List.filterMap_cons]
      cases dataOf line with
      | none => rfl
      | some text => rfl

/-- The payloads of a text are those of its lines, read one after the other. -/
theorem payloads_eq (text : Text) :
    payloads text =
      (onLines [] (splitLines text)).2 ++ last (onLines [] (splitLines text)).1 := by
  obtain ⟨group, rest, h_groups, h_eq⟩ := onLines_eq [] (splitLines text)
  rw [h_eq, List.nil_append, payloads, h_groups, payloads_of_groups]

/-- What the loop takes from the buffer are the first lines of the text, whatever comes
    behind it. -/
theorem settle_lines (buffer : Text) (data : List Text) :
    ∃ lines rest, settle buffer data = (rest, onLines data lines) ∧ takeLine rest = none ∧
      (rest.getLast? = some CR ↔ buffer.getLast? = some CR) ∧
      ∀ more, splitLines (buffer ++ more) = lines ++ splitLines (rest ++ more) := by
  induction buffer using settle_induction generalizing data with
  | done buffer h => exact ⟨[], buffer, settle_of_none h data, h, Iff.rfl, fun _ => rfl⟩
  | round buffer line rest h ih =>
    obtain ⟨lines, left, h_settle, h_none, h_last, h_lines⟩ := ih (onLine data line).1
    refine ⟨line :: lines, left, ?_, h_none, h_last.trans (getLast?_of_takeLine h), ?_⟩
    · rw [settle_of_some h]
      simp only [h_settle, onLines]
    · intro more
      rw [splitLines_of_takeLine (takeLine_append h more), h_lines more, List.cons_append]

/-! ## Chunks -/

/-- The chunks do the same as all bytes at once. -/
theorem pushAll_eq (r : Reader) (h : takeLine r.buffer = none) (chunks : List Bytes) :
    r.pushAll chunks =
      let decoded := r.decoder.decodeStream chunks.flatten
      let drained := settle (r.buffer ++ decoded.2) r.data
      (⟨decoded.1, drained.1, drained.2.1⟩, drained.2.2) := by
  induction chunks generalizing r with
  | nil =>
    simp only [List.flatten_nil, TextDecoder.decodeStream_nil, List.append_nil, settle_of_none h]
    rfl
  | cons chunk chunks ih =>
    have h_next : takeLine (r.push chunk).1.buffer = none := takeLine_settle _ _
    have h_push : r.push chunk =
        (⟨(r.decoder.decodeStream chunk).1,
          (settle (r.buffer ++ (r.decoder.decodeStream chunk).2) r.data).1,
          (settle (r.buffer ++ (r.decoder.decodeStream chunk).2) r.data).2.1⟩,
          (settle (r.buffer ++ (r.decoder.decodeStream chunk).2) r.data).2.2) := rfl
    have h_rest := ih _ h_next
    rw [h_push] at h_rest
    simp only [pushAll, h_push, h_rest, List.flatten_cons, TextDecoder.decodeStream_append,
      ← List.append_assoc, settle_append (r.buffer ++ _)]

end Reader

open Reader

/-! ## The end of the stream -/

/-- What the decoder adds at the end of the stream: at most a replacement character. -/
theorem decodeEnd_cases (d : TextDecoder) : d.decodeEnd = [] ∨ d.decodeEnd = [0xFFFD] := by
  rw [TextDecoder.decodeEnd, Utf8.flush]
  split
  · exact .inr rfl
  · exact .inl rfl

theorem oneLine_decodeEnd (d : TextDecoder) : OneLine d.decodeEnd := by
  obtain h | h := decodeEnd_cases d <;> rw [h]
  · exact Properties.oneLine_nil
  · decide

theorem unitsOf_data : Properties.unitsOf "data:" = [100, 97, 116, 97, 58] := by decide +kernel

theorem dataOf_nil : dataOf [] = none := by
  rw [dataOf, unitsOf_data]
  rfl

theorem dataOf_decodeEnd (d : TextDecoder) : dataOf d.decodeEnd = none := by
  obtain h | h := decodeEnd_cases d <;> rw [h]
  · exact dataOf_nil
  · rw [dataOf, unitsOf_data]
    rfl

theorem isPrefixOf_append_cr {pre : Text} (h : CR ∉ pre) (line more : Text) :
    pre.isPrefixOf (line ++ CR :: more) = pre.isPrefixOf line := by
  induction pre generalizing line with
  | nil => simp
  | cons c pre ih =>
    have h_c : c ≠ CR := fun h_eq => h (by rw [h_eq]; exact List.mem_cons_self)
    have h_pre : CR ∉ pre := fun h_mem => h (List.mem_cons_of_mem _ h_mem)
    cases line with
    | nil => simp [List.isPrefixOf, h_c]
    | cons d line =>
      rw [List.cons_append, List.isPrefixOf, List.isPrefixOf, ih h_pre]

/-- A CR that no line end takes up is part of what a data line says. -/
theorem dataOf_append_cr (line more : Text) :
    dataOf (line ++ CR :: more) = (dataOf line).map (· ++ CR :: more) := by
  have h_cr : CR ∉ Properties.unitsOf "data:" := by
    rw [unitsOf_data]
    decide
  have h_length : (Properties.unitsOf "data:").length = 5 := by
    rw [unitsOf_data]
    rfl
  rw [dataOf, dataOf, isPrefixOf_append_cr h_cr]
  by_cases h : (Properties.unitsOf "data:").isPrefixOf line = true
  · have h_le : 5 ≤ line.length := by
      rw [← h_length]
      exact (List.isPrefixOf_iff_prefix.mp h).length_le
    rw [if_pos h, if_pos h, List.drop_append_of_le_length h_le, Option.map_some]
    cases h_rest : line.drop 5 with
    | nil => simp [show CR ≠ SPACE by decide]
    | cons c rest =>
      by_cases h_c : c = SPACE
      · simp [h_c]
      · simp [h_c]
  · rw [if_neg h, if_neg h, Option.map_none]

theorem joinWith_append (sep text more : Text) (data : List Text) :
    joinWith sep (data ++ [text ++ more]) = joinWith sep (data ++ [text]) ++ more := by
  induction data with
  | nil => simp [joinWith]
  | cons first data ih =>
    rw [joinWith, joinWith] at ih
    rw [joinWith, joinWith, List.cons_append, List.cons_append,
      List.intercalate_cons_of_ne_nil (by simp), List.intercalate_cons_of_ne_nil (by simp), ih]
    simp [List.append_assoc]

/-- Another text in the last data line is another payload. -/
theorem last_ne {data : List Text} {text more : Text} (h : more ≠ []) :
    last (data ++ [text ++ more]) ≠ last (data ++ [text]) := by
  intro h_eq
  rw [last, last, if_neg (by simp), if_neg (by simp), joinWith_append] at h_eq
  have h_self : joinWith [LF] (data ++ [text]) ++ more = joinWith [LF] (data ++ [text]) :=
    List.singleton_inj.mp h_eq
  exact h (List.append_right_eq_self.mp h_self)

/-- What is yielded at the end. -/
theorem close_eq (r : Reader) :
    r.close = last (r.data ++ (dataOf (r.buffer ++ r.decoder.decodeEnd)).toList) := by
  rw [close]
  cases dataOf (r.buffer ++ r.decoder.decodeEnd) with
  | none => rw [Option.toList_none, List.append_nil]; rfl
  | some text => rfl

/-- The last line of a text that ends in a CR is the one before it. -/
theorem endsInDataCR_iff {text line : Text} {lines : List Text} (h_cr : text.getLast? = some CR)
    (h : splitLines text = lines ++ [line, []]) :
    EndsInDataCR text ↔ (dataOf line).isSome = true := by
  have h_text : text = text.dropLast ++ [CR] := (List.dropLast_append_getLast? CR h_cr).symm
  have h_lines : splitLines text.dropLast ++ [[]] = (lines ++ [line]) ++ [[]] := by
    rw [splitLines, ← Properties.splitFrom_concat_cr, ← h_text, ← splitLines, h,
      List.append_assoc]
    rfl
  have h_before := List.append_cancel_right h_lines
  constructor
  · rintro ⟨-, line', h_line', h_data⟩
    rw [h_before, List.getLast?_concat] at h_line'
    cases h_line'
    exact h_data
  · intro h_data
    exact ⟨h_cr, line, by rw [h_before, List.getLast?_concat], h_data⟩

/-- The end of the stream ends the event of its last line. -/
theorem onLines_singleton (data : List Text) (line : Text) :
    (onLines data [line]).2 ++ last (onLines data [line]).1 =
      last (data ++ (dataOf line).toList) := by
  by_cases h : line = []
  · rw [h, dataOf_nil, onLines, onLine_blank, Option.toList_none, List.append_nil]
    simp [onLines, last]
  · rw [onLines, onLine_of_ne h]
    simp only [onLines, List.nil_append]

/-- A last line without data adds nothing. -/
theorem onLines_pair (data : List Text) (line : Text) {tail : Text} (h : dataOf tail = none) :
    (onLines data [line, tail]).2 ++ last (onLines data [line, tail]).1 =
      last (data ++ (dataOf line).toList) := by
  have h_tail : ∀ data, (onLines data [tail]).2 ++ last (onLines data [tail]).1 = last data := by
    intro data
    rw [onLines_singleton, h, Option.toList_none, List.append_nil]
  rw [← onLines_singleton]
  rw [onLines]
  simp only [List.append_assoc, h_tail]
  rw [onLines]
  simp only [onLines, List.append_nil]

/-- The payloads are those of the whole text but where the stream ends in a lone CR after a
    data line, however the body came in chunks. -/
theorem readSseData_iff (chunks : List Bytes) :
    readSseData chunks = payloads (Utf8.decodeText chunks.flatten) ↔
      ¬ EndsInDataCR (streamed chunks.flatten) := by
  obtain ⟨decoder, h_decoder⟩ :
      ∃ d, ({} : TextDecoder).decodeStream chunks.flatten = (d, streamed chunks.flatten) :=
    ⟨_, rfl⟩
  obtain ⟨lines, rest, h_settle, h_none, h_last, h_lines⟩ :=
    settle_lines (streamed chunks.flatten) []
  have h_read : readSseData chunks = (onLines [] lines).2 ++
      last ((onLines [] lines).1 ++ (dataOf (rest ++ decoder.decodeEnd)).toList) := by
    rw [readSseData, pushAll_eq {} rfl]
    simp only [List.nil_append, h_decoder, h_settle, close_eq]
  have h_whole : payloads (Utf8.decodeText chunks.flatten) = (onLines [] lines).2 ++
      ((onLines (onLines [] lines).1 (splitLines (rest ++ decoder.decodeEnd))).2 ++
        last (onLines (onLines [] lines).1 (splitLines (rest ++ decoder.decodeEnd))).1) := by
    rw [payloads_eq, Utf8.decodeText]
    simp only [h_decoder]
    rw [h_lines, onLines_append, List.append_assoc]
  rw [h_read, h_whole, List.append_cancel_left_eq]
  generalize (onLines [] lines).1 = data
  obtain h_line | ⟨line, h_line, rfl⟩ := takeLine_eq_none h_none
  · -- the text ends within a line, or after one
    have h_no : ¬ EndsInDataCR (streamed chunks.flatten) := by
      rintro ⟨h_cr, -⟩
      exact h_line.2 (List.mem_of_getLast? (h_last.mpr h_cr))
    have h_rest : OneLine (rest ++ decoder.decodeEnd) :=
      Properties.oneLine_append.mpr ⟨h_line, oneLine_decodeEnd decoder⟩
    rw [Properties.splitLines_oneLine h_rest, onLines_singleton]
    exact iff_of_true rfl h_no
  · -- the CR at the end waits for a LF that does not come
    have h_cr : (streamed chunks.flatten).getLast? = some CR :=
      h_last.mp List.getLast?_concat
    have h_head : decoder.decodeEnd.head? ≠ some LF := by
      obtain h | h := decodeEnd_cases decoder <;> rw [h] <;> decide
    have h_lines' : splitLines (streamed chunks.flatten) = lines ++ [line, []] := by
      rw [← List.append_nil (streamed chunks.flatten), h_lines, List.append_nil,
        splitLines_append_cr h_line (by simp)]
      rfl
    have h_split : splitLines (line ++ [CR] ++ decoder.decodeEnd) = [line, decoder.decodeEnd] := by
      rw [List.append_assoc, List.singleton_append, splitLines_append_cr h_line h_head,
        Properties.splitLines_oneLine (oneLine_decodeEnd decoder)]
    rw [h_split, onLines_pair data line (dataOf_decodeEnd decoder),
      endsInDataCR_iff h_cr h_lines', List.append_assoc, List.singleton_append, dataOf_append_cr]
    cases dataOf line with
    | none => simp
    | some text =>
      simp only [Option.map_some, Option.toList_some, Option.isSome_some, not_true, iff_false]
      exact last_ne (List.cons_ne_nil _ _)

/-- The body `data: x` with a CR and no more: the CR is part of the payload. -/
theorem readSseData_keeps_cr :
    ¬ ∀ chunks, readSseData chunks = payloads (Utf8.decodeText chunks.flatten) := by
  intro h
  have h_chunk := h [[0x64, 0x61, 0x74, 0x61, 0x3A, 0x20, 0x78, 0x0D]]
  revert h_chunk
  decide +kernel

end Kubek.Assistant.EventStream
