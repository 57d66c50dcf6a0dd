/-
  Kubek.Properties.LineEnds

  The line ends of a text and what a document makes of them.

  `parse` reads three line ends and `toText` writes one: CR LF where the text has one, else
  LF. A document that nobody edits is written as its text if and only if the text has that
  line end throughout (`toText_parse_eq`), and its lines are spelled as in the text if and
  only if the line ends inside its entries are that one (`written_parse_eq`).
-/

import Kubek.Properties.Restore
import Mathlib.Data.List.Chain

namespace Kubek.Properties

/-! ## Physical lines with their ends -/

/-- The physical lines, each with the line end behind it; the last has none. -/
def cutLines : Text → List (Text × Text)
  | [] => [([], [])]
  | c :: text =>
      if c = LF then ([], [LF]) :: cutLines text
      else if c = CR then
        match text with
        | [] => [([], [CR]), ([], [])]
        | d :: more =>
            if d = LF then ([], [CR, LF]) :: cutLines more
            else ([], [CR]) :: cutLines (d :: more)
      else
        match cutLines text with
        | [] => [([c], [])]
        | p :: rest => (c :: p.1, p.2) :: rest

def lineEnds (text : Text) : List Text := (cutLines text).dropLast.map Prod.snd

/-- One line end throughout. -/
def UniformEnds (text : Text) : Prop := ∃ e, ∀ x ∈ lineEnds text, x = e

/-! ## Lines of the document -/

/-- The physical lines of an entry together, whatever its line ends; a note is a line of its
    own. The state is an entry that goes on and its logical line so far. -/
def groupLines : Option (List (Text × Text) × Text) → List (Text × Text) → List (List (Text × Text))
  | none, [] => []
  | some st, [] => [st.1]
  | none, p :: rest =>
      let logical := p.1.dropWhile isTrimmed
      if !isNote logical && endsWithContinuation logical then groupLines (some ([p], logical)) rest
      else [p] :: groupLines none rest
  | some st, p :: rest =>
      let logical := st.2.dropLast ++ p.1.dropWhile isBlank
      if endsWithContinuation logical then groupLines (some (st.1 ++ [p], logical)) rest
      else (st.1 ++ [p]) :: groupLines none rest

/-- The physical lines of the document: an empty one at the end of the text is none. -/
def docLines (text : Text) : List (Text × Text) :=
  if text == [] || (splitLines text).getLast? == some [] then (cutLines text).dropLast
  else cutLines text

def docGroups (text : Text) : List (List (Text × Text)) := groupLines none (docLines text)

/-- The bytes of a line of the document, without the line end behind it. -/
def spelled : List (Text × Text) → Text
  | [] => []
  | [p] => p.1
  | p :: q :: rest => p.1 ++ (p.2 ++ spelled (q :: rest))

/-- The lines of the document as the text spells them. -/
def spelledLines (text : Text) : List Text := (docGroups text).map spelled

/-- The line ends inside the entries. -/
def innerEnds (text : Text) : List Text :=
  (docGroups text).flatMap fun group => group.dropLast.map Prod.snd

/-! ## Cutting -/

theorem cutLines_lf (text : Text) : cutLines (LF :: text) = ([], [LF]) :: cutLines text := by
  rw [cutLines.eq_def]
  simp

attribute [local simp] cutLines in
theorem cutLines_crlf (text : Text) :
    cutLines (CR :: LF :: text) = ([], [CR, LF]) :: cutLines text := by
  simp [cutLines, show CR ≠ LF by decide]

theorem cutLines_cr {text : Text} (h : text.head? ≠ some LF) :
    cutLines (CR :: text) = ([], [CR]) :: cutLines text := by
  cases text with
  | nil => simp [cutLines, show CR ≠ LF by decide]
  | cons d more =>
    have h_d : d ≠ LF := fun h_eq => h (by rw [h_eq]; rfl)
    simp [cutLines, show CR ≠ LF by decide, h_d]

theorem cutLines_ne_nil (text : Text) : cutLines text ≠ [] := by
  unfold cutLines
  split
  · simp
  · split
    · simp
    · split
      · split
        · simp
        · split <;> simp
      · split <;> simp

theorem cutLines_unit {c : CodeUnit} (h_lf : c ≠ LF) (h_cr : c ≠ CR) (text : Text) :
    ∃ p rest, cutLines text = p :: rest ∧ cutLines (c :: text) = (c :: p.1, p.2) :: rest := by
  cases h : cutLines text with
  | nil => exact absurd h (cutLines_ne_nil text)
  | cons p rest =>
    refine ⟨p, rest, rfl, ?_⟩
    rw [cutLines.eq_def]
    simp [h_lf, h_cr, h]

/-- A text is read line end by line end and unit by unit. -/
theorem lineEnd_induction {P : Text → Prop} (nil : P []) (lf : ∀ text, P text → P (LF :: text))
    (crlf : ∀ text, P text → P (CR :: LF :: text))
    (cr : ∀ text, text.head? ≠ some LF → P text → P (CR :: text))
    (unit : ∀ c text, c ≠ LF → c ≠ CR → P text → P (c :: text)) (text : Text) : P text := by
  induction h_length : text.length using Nat.strong_induction_on generalizing text with
  | _ n ih =>
    have h_less : ∀ rest : Text, rest.length < n → P rest := fun rest h_lt =>
      ih rest.length h_lt rest rfl
    cases text with
    | nil => exact nil
    | cons c rest =>
      rw [List.length_cons] at h_length
      by_cases h_lf : c = LF
      · rw [h_lf]
        exact lf rest (h_less rest (by omega))
      · by_cases h_cr : c = CR
        · rw [h_cr]
          by_cases h_head : rest.head? = some LF
          · obtain ⟨more, rfl⟩ := List.head?_eq_some_iff.mp h_head
            rw [List.length_cons] at h_length
            exact crlf more (h_less more (by omega))
          · exact cr rest h_head (h_less rest (by omega))
        · exact unit c rest h_lf h_cr (h_less rest (by omega))

theorem map_cutLines (text : Text) : (cutLines text).map Prod.fst = splitLines text := by
  induction text using lineEnd_induction with
  | nil => rfl
  | lf text ih =>
    rw [cutLines_lf, List.map_cons, ih]
    simp [splitLines, splitFrom]
  | crlf text ih =>
    rw [cutLines_crlf, List.map_cons, ih]
    simp [splitLines, splitFrom, show CR ≠ LF by decide]
  | cr text h ih => rw [cutLines_cr h, List.map_cons, ih, splitLines_cr h]
  | unit c text h_lf h_cr ih =>
    obtain ⟨p, rest, h_text, h_cut⟩ := cutLines_unit h_lf h_cr text
    rw [h_text, List.map_cons] at ih
    rw [h_cut, List.map_cons, splitLines, splitFrom, if_neg h_lf, if_neg h_cr, ← splitLines, ← ih]

/-- The three line ends. -/
def IsEnd (e : Text) : Prop := IsEol e ∨ e = [CR]

theorem IsEnd.ne_nil {e : Text} (h : IsEnd e) : e ≠ [] := by
  obtain (rfl | rfl) | rfl := h <;> simp

/-- A physical line and the next one: a CR between them is not half of a CR LF. -/
def Follows (p q : Text × Text) : Prop :=
  IsEnd p.2 ∧ (p.2 = [CR] → (q.1 ++ q.2).head? ≠ some LF)

theorem head?_cutLines {text : Text} {p : Text × Text} (h : (cutLines text).head? = some p) :
    (p.1 ++ p.2).head? = text.head? := by
  induction text using lineEnd_induction with
  | nil => cases h; rfl
  | lf text _ => rw [cutLines_lf] at h; cases h; rfl
  | crlf text _ => rw [cutLines_crlf] at h; cases h; rfl
  | cr text h_head _ => rw [cutLines_cr h_head] at h; cases h; rfl
  | unit c text h_lf h_cr _ =>
    obtain ⟨q, rest, -, h_cut⟩ := cutLines_unit h_lf h_cr text
    rw [h_cut] at h
    cases h
    rfl

theorem isChain_cutLines (text : Text) : List.IsChain Follows (cutLines text) := by
  have h_cons : ∀ {e : Text} {text : Text}, IsEnd e → (e = [CR] → text.head? ≠ some LF) →
      List.IsChain Follows (cutLines text) → List.IsChain Follows (([], e) :: cutLines text) := by
    intro e text h_end h_head h_chain
    refine List.isChain_cons.mpr ⟨fun q h_q => ⟨h_end, fun h_e => ?_⟩, h_chain⟩
    rw [head?_cutLines h_q]
    exact h_head h_e
  induction text using lineEnd_induction with
  | nil => exact List.isChain_singleton _
  | lf text ih =>
    rw [cutLines_lf]
    exact h_cons (.inl (.inl rfl)) (fun h => by cases h) ih
  | crlf text ih =>
    rw [cutLines_crlf]
    exact h_cons (.inl (.inr rfl)) (fun h => by cases h) ih
  | cr text h ih =>
    rw [cutLines_cr h]
    exact h_cons (.inr rfl) (fun _ => h) ih
  | unit c text h_lf h_cr ih =>
    obtain ⟨p, rest, h_text, h_cut⟩ := cutLines_unit h_lf h_cr text
    rw [h_text, List.isChain_cons] at ih
    rw [h_cut, List.isChain_cons]
    exact ih

theorem getLast?_cutLines (text : Text) : ∃ line, (cutLines text).getLast? = some (line, []) := by
  induction text using lineEnd_induction with
  | nil => exact ⟨[], rfl⟩
  | lf text ih =>
    obtain ⟨line, h⟩ := ih
    exact ⟨line, by rw [cutLines_lf, List.getLast?_cons, h]; rfl⟩
  | crlf text ih =>
    obtain ⟨line, h⟩ := ih
    exact ⟨line, by rw [cutLines_crlf, List.getLast?_cons, h]; rfl⟩
  | cr text h_head ih =>
    obtain ⟨line, h⟩ := ih
    exact ⟨line, by rw [cutLines_cr h_head, List.getLast?_cons, h]; rfl⟩
  | unit c text h_lf h_cr ih =>
    obtain ⟨line, h⟩ := ih
    obtain ⟨p, rest, h_text, h_cut⟩ := cutLines_unit h_lf h_cr text
    rw [h_text] at h
    cases rest with
    | nil =>
      cases h
      exact ⟨c :: line, by rw [h_cut]; rfl⟩
    | cons q rest =>
      rw [List.getLast?_cons_cons] at h
      exact ⟨line, by rw [h_cut, List.getLast?_cons_cons, h]⟩

/-! ## Spelling -/

theorem spelled_cons {p : Text × Text} {rest : List (Text × Text)} (h : rest ≠ []) :
    spelled (p :: rest) = p.1 ++ (p.2 ++ spelled rest) := by
  cases rest with
  | nil => exact absurd rfl h
  | cons q rest => rfl

/-- All physical lines together are the text. -/
theorem spelled_cutLines (text : Text) : spelled (cutLines text) = text := by
  induction text using lineEnd_induction with
  | nil => rfl
  | lf text ih => rw [cutLines_lf, spelled_cons (cutLines_ne_nil text), ih]; rfl
  | crlf text ih => rw [cutLines_crlf, spelled_cons (cutLines_ne_nil text), ih]; rfl
  | cr text h ih => rw [cutLines_cr h, spelled_cons (cutLines_ne_nil text), ih]; rfl
  | unit c text h_lf h_cr ih =>
    obtain ⟨p, rest, h_text, h_cut⟩ := cutLines_unit h_lf h_cr text
    rw [h_text] at ih
    rw [h_cut, ← ih]
    cases rest with
    | nil => rfl
    | cons q rest => rfl

theorem head?_spelled {q : Text × Text} {rest : List (Text × Text)}
    (h : List.IsChain Follows (q :: rest)) (h_lf : (q.1 ++ q.2).head? ≠ some LF) :
    (spelled (q :: rest)).head? ≠ some LF := by
  cases rest with
  | nil =>
    intro h_head
    obtain ⟨more, h_q⟩ := List.head?_eq_some_iff.mp h_head
    exact h_lf (by rw [show q.1 = LF :: more from h_q]; rfl)
  | cons r rest =>
    have h_end := ((List.isChain_cons_cons.mp h).1).1.ne_nil
    rw [spelled_cons (List.cons_ne_nil r rest), ← List.append_assoc,
      List.head?_append_of_ne_nil _ (by simp [h_end])]
    exact h_lf

/-- Another line end makes another text. -/
theorem end_append_ne {e eol : Text} (h_e : IsEnd e) (h_eol : IsEol eol) (h_ne : e ≠ eol)
    {xs ys : Text} (h_cr : e = [CR] → xs.head? ≠ some LF) : e ++ xs ≠ eol ++ ys := by
  intro h
  obtain (rfl | rfl) | rfl := h_e <;> obtain rfl | rfl := h_eol
  · exact h_ne rfl
  · cases h
  · cases h
  · exact h_ne rfl
  · cases h
  · apply h_cr rfl
    rw [List.singleton_append, List.cons_append, List.cons.injEq] at h
    rw [h.2]
    rfl

/-- Joined with one line end, lines are spelled as they are if that is the end of each. -/
theorem spelled_eq_iff {eol : Text} (h_eol : IsEol eol) {group : List (Text × Text)}
    (h : List.IsChain Follows group) :
    joinWith eol (group.map Prod.fst) = spelled group ↔
      ∀ e ∈ group.dropLast.map Prod.snd, e = eol := by
  induction group with
  | nil => simp [joinWith, spelled]
  | cons p group ih =>
    cases group with
    | nil => simp [joinWith, spelled]
    | cons q rest =>
      obtain ⟨h_pq, h_rest⟩ := List.isChain_cons_cons.mp h
      have h_join : joinWith eol ((p :: q :: rest).map Prod.fst) =
          p.1 ++ (eol ++ joinWith eol ((q :: rest).map Prod.fst)) := by
        rw [List.map_cons, joinWith, List.intercalate_cons_of_ne_nil (by simp), List.append_assoc]
        rfl
      rw [h_join, spelled_cons (List.cons_ne_nil q rest), List.append_cancel_left_eq,
        List.dropLast_cons_cons]
      by_cases h_end : p.2 = eol
      · rw [h_end, List.append_cancel_left_eq, ih h_rest]
        simp [h_end]
      · refine iff_of_false (Ne.symm (end_append_ne h_pq.1 h_eol h_end fun h_cr => ?_))
          fun h_all => h_end (h_all p.2 (by simp))
        exact head?_spelled h_rest (h_pq.2 h_cr)

/-! ## Groups -/

attribute [local simp] groupLines in
/-- The reader closes a line where a group ends. -/
theorem written_readLines (eol : Text) (st : Option (List (Text × Text) × Text))
    (ps : List (Text × Text)) :
    let read := readLines eol (st.map fun s => ⟨s.1.map Prod.fst, s.2⟩) (ps.map Prod.fst)
    (read.1 ++ flush eol read.2).map Line.written =
      (groupLines st ps).map fun group => joinWith eol (group.map Prod.fst) := by
  induction ps generalizing st with
  | nil =>
    cases st with
    | none => rfl
    | some s => rfl
  | cons p ps ih =>
    cases st with
    | none =>
      simp only [List.map_cons, Option.map_none, readLines, readLine, groupLines]
      by_cases h_note : isNote (p.1.dropWhile isTrimmed) = true
      · rw [if_pos h_note, h_note]
        simpa [Line.written, joinWith] using ih none
      · rw [if_neg h_note, (Bool.not_eq_true _).mp h_note]
        by_cases h_cont : endsWithContinuation (p.1.dropWhile isTrimmed) = true
        · simpa [offer, h_cont] using ih (some ([p], p.1.dropWhile isTrimmed))
        · simpa [offer, h_cont, Line.written, entryOf, joinWith] using ih none
    | some s =>
      simp only [List.map_cons, Option.map_some, readLines, readLine, groupLines]
      by_cases h_cont : endsWithContinuation (s.2.dropLast ++ p.1.dropWhile isBlank) = true
      · simpa [offer, h_cont] using ih (some (s.1 ++ [p], s.2.dropLast ++ p.1.dropWhile isBlank))
      · simpa [offer, h_cont, Line.written, entryOf, joinWith] using ih none

theorem flatten_groupLines (st : Option (List (Text × Text) × Text)) (ps : List (Text × Text)) :
    (groupLines st ps).flatten = (st.map Prod.fst).getD [] ++ ps := by
  induction ps generalizing st with
  | nil => cases st <;> simp [groupLines]
  | cons p ps ih =>
    cases st with
    | none =>
      rw [groupLines]
      split
      · rw [ih]
        rfl
      · rw [List.flatten_cons, ih]
        rfl
    | some s =>
      rw [groupLines]
      split
      · rw [ih]
        simp
      · rw [List.flatten_cons, ih]
        simp

theorem ne_nil_of_mem_groupLines {st : Option (List (Text × Text) × Text)}
    (h_st : ∀ s ∈ st, s.1 ≠ []) {ps : List (Text × Text)} {group : List (Text × Text)}
    (h : group ∈ groupLines st ps) : group ≠ [] := by
  induction ps generalizing st with
  | nil =>
    cases st with
    | none => cases h
    | some s =>
      rw [groupLines, List.mem_singleton] at h
      rw [h]
      exact h_st s rfl
  | cons p ps ih =>
    cases st with
    | none =>
      rw [groupLines] at h
      split at h
      · exact ih (by simp) h
      · obtain rfl | h := List.mem_cons.mp h
        · simp
        · exact ih (by simp) h
    | some s =>
      rw [groupLines] at h
      split at h
      · exact ih (by simp) h
      · obtain rfl | h := List.mem_cons.mp h
        · simp
        · exact ih (by simp) h

theorem isChain_of_mem_docGroups {text : Text} {group : List (Text × Text)}
    (h : group ∈ docGroups text) : List.IsChain Follows group := by
  have h_doc : List.IsChain Follows (docLines text) := by
    rw [docLines]
    split
    · exact (isChain_cutLines text).dropLast
    · exact isChain_cutLines text
  have h_flatten : (docGroups text).flatten = docLines text := flatten_groupLines none _
  rw [← h_flatten] at h_doc
  exact h_doc.infix (List.infix_of_mem_flatten h)

theorem docLines_fst (text : Text) :
    (docLines text).map Prod.fst =
      if text == [] || (splitLines text).getLast? == some [] then (splitLines text).dropLast
      else splitLines text := by
  rw [docLines]
  split
  · rw [List.map_dropLast, map_cutLines]
  · exact map_cutLines text

/-- The lines of a document are its groups. -/
theorem written_parse (text : Text) :
    (parse text).lines.map Line.written =
      (docGroups text).map fun group => joinWith (parse text).eol (group.map Prod.fst) := by
  rw [parse_lines, ← docLines_fst]
  exact written_readLines (parse text).eol none (docLines text)

/-- The lines of a document are spelled as in the text if and only if the line ends inside its
    entries are the one it is written with. -/
theorem written_parse_eq (text : Text) :
    (parse text).lines.map Line.written = spelledLines text ↔
      ∀ e ∈ innerEnds text, e = (parse text).eol := by
  rw [written_parse, spelledLines, List.map_inj_left]
  simp only [innerEnds, List.mem_flatMap]
  constructor
  · rintro h e ⟨group, h_group, h_e⟩
    exact (spelled_eq_iff (isEol_parse text) (isChain_of_mem_docGroups h_group)).mp
      (h group h_group) e h_e
  · intro h group h_group
    exact (spelled_eq_iff (isEol_parse text) (isChain_of_mem_docGroups h_group)).mpr
      fun e h_e => h e ⟨group, h_group, h_e⟩

/-! ## The whole text -/

theorem joinWith_joinWith (eol : Text) {groups : List (List Text)} (h : ∀ g ∈ groups, g ≠ []) :
    joinWith eol (groups.map (joinWith eol)) = joinWith eol groups.flatten := by
  induction groups with
  | nil => rfl
  | cons g groups ih =>
    have h_rest := ih fun g' h_g' => h g' (List.mem_cons_of_mem _ h_g')
    have h_single : joinWith eol [joinWith eol g] = joinWith eol g := List.intercalate_singleton
    cases groups with
    | nil => rw [List.map_singleton, h_single, List.flatten_singleton]
    | cons next more =>
      have h_next : (next :: more).flatten ≠ [] := by
        have h_ne := h next (by simp)
        simp [h_ne]
      have h_head : joinWith eol ((g :: next :: more).map (joinWith eol)) =
          joinWith eol g ++ (eol ++ joinWith eol ((next :: more).map (joinWith eol))) := by
        rw [← h_single, ← joinWith_append (by simp) (by simp)]
        simp
      rw [h_head, h_rest, ← joinWith_append (h g List.mem_cons_self) h_next]
      rfl

/-- What a document that nobody edits is written as: its physical lines, joined anew. -/
theorem toText_parse (text : Text) :
    (parse text).toText = joinWith (parse text).eol (splitLines text) := by
  have h_groups : ∀ g ∈ (docGroups text).map (List.map Prod.fst), g ≠ [] := by
    intro g h_g
    obtain ⟨group, h_group, rfl⟩ := List.mem_map.mp h_g
    have h_ne : group ≠ [] := ne_nil_of_mem_groupLines (by simp) h_group
    simpa using h_ne
  have h_flatten : ((docGroups text).map (List.map Prod.fst)).flatten =
      (docLines text).map Prod.fst := by
    rw [← List.map_flatten, docGroups, flatten_groupLines]
    rfl
  have h_body : joinWith (parse text).eol ((parse text).lines.map Line.written) =
      joinWith (parse text).eol ((docLines text).map Prod.fst) := by
    rw [← h_flatten, ← joinWith_joinWith _ h_groups, written_parse, List.map_map]
    rfl
  have h_nil : (parse text).lines = [] ↔ (docLines text).map Prod.fst = [] := by
    rw [← List.map_eq_nil_iff (f := Line.written), written_parse, List.map_eq_nil_iff,
      List.map_eq_nil_iff]
    constructor
    · intro h
      have h_all : (docGroups text).flatten = docLines text := flatten_groupLines none _
      rw [← h_all, h]
      rfl
    · intro h
      rw [docGroups, h]
      rfl
  have h_trailing : (parse text).trailingEol =
      (text == [] || (splitLines text).getLast? == some []) := rfl
  rw [PropertiesDocument.toText]
  simp only [h_body]
  by_cases h_end : (text == [] || (splitLines text).getLast? == some []) = true
  · -- the line end at the end of the text makes an empty line
    have h_split : splitLines text = (splitLines text).dropLast ++ [[]] := by
      have h_last : (splitLines text).getLast? = some [] := by
        rw [Bool.or_eq_true, beq_iff_eq, beq_iff_eq] at h_end
        obtain rfl | h_last := h_end
        · rfl
        · exact h_last
      exact (List.dropLast_append_getLast? [] h_last).symm
    have h_fst : (docLines text).map Prod.fst = (splitLines text).dropLast := by
      rw [docLines_fst, if_pos h_end]
    rw [h_trailing, h_end, Bool.true_and, h_fst]
    rw [h_fst] at h_nil
    by_cases h_none : (splitLines text).dropLast = []
    · have h_lines := h_nil.mpr h_none
      rw [h_split, h_none]
      simp [h_lines, joinWith]
    · have h_lines : (parse text).lines ≠ [] := fun h => h_none (h_nil.mp h)
      have h_empty : joinWith (parse text).eol [[]] = [] := List.intercalate_singleton
      rw [h_split, joinWith_append h_none (by simp), List.dropLast_concat, h_empty]
      simp [h_lines]
  · have h_fst : (docLines text).map Prod.fst = splitLines text := by
      rw [docLines_fst, if_neg h_end]
    rw [h_trailing, (Bool.not_eq_true _).mp h_end, h_fst]
    rfl

attribute [local simp] lineEnds in
/-- It is the text if and only if the text has that line end throughout. -/
theorem toText_parse_eq (text : Text) :
    (parse text).toText = text ↔ ∀ e ∈ lineEnds text, e = (parse text).eol := by
  have h_iff := spelled_eq_iff (isEol_parse text) (isChain_cutLines text)
  rw [map_cutLines, spelled_cutLines] at h_iff
  rw [toText_parse, h_iff, lineEnds]

theorem includes_cons (needle : Text) (c : CodeUnit) (text : Text) :
    TextSearch.includes needle (c :: text) =
      (needle.isPrefixOf (c :: text) || TextSearch.includes needle text) := by
  rw [TextSearch.includes, TextSearch.indexOf]
  split
  · rename_i h
    rw [h]
    rfl
  · rename_i h
    rw [(Bool.not_eq_true _).mp h, TextSearch.includes]
    cases TextSearch.indexOf needle text <;> rfl

theorem lineEnds_of_cut {line e text rest : Text}
    (h : cutLines text = (line, e) :: cutLines rest) : lineEnds text = e :: lineEnds rest := by
  rw [lineEnds, h, List.dropLast_cons_of_ne_nil (cutLines_ne_nil rest)]
  rfl

/-- CR LF is searched where a line ends in it. -/
theorem includes_crlf (text : Text) :
    TextSearch.includes [CR, LF] text = true ↔ [CR, LF] ∈ lineEnds text := by
  induction text using lineEnd_induction with
  | nil => decide
  | lf text ih =>
    rw [includes_cons, lineEnds_of_cut (cutLines_lf text)]
    simpa [List.isPrefixOf, show CR ≠ LF by decide] using ih
  | crlf text ih =>
    rw [includes_cons, lineEnds_of_cut (cutLines_crlf text)]
    simp [List.isPrefixOf]
  | cr text h ih =>
    have h_prefix : [CR, LF].isPrefixOf (CR :: text) = false := by
      cases text with
      | nil => rfl
      | cons d more =>
        have h_d : d ≠ LF := fun h_eq => h (by rw [h_eq]; rfl)
        simp [List.isPrefixOf, Ne.symm h_d]
    rw [includes_cons, h_prefix, Bool.false_or, ih, lineEnds_of_cut (cutLines_cr h)]
    simp
  | unit c text h_lf h_cr ih =>
    obtain ⟨p, rest, h_text, h_cut⟩ := cutLines_unit h_lf h_cr text
    have h_ends : lineEnds (c :: text) = lineEnds text := by
      rw [lineEnds, lineEnds, h_text, h_cut]
      cases rest <;> rfl
    have h_prefix : [CR, LF].isPrefixOf (c :: text) = false := by
      simp [List.isPrefixOf, Ne.symm h_cr]
    rw [includes_cons, h_prefix, Bool.false_or, ih, h_ends]

theorem eol_parse (text : Text) :
    (parse text).eol = if [CR, LF] ∈ lineEnds text then [CR, LF] else [LF] := by
  have h_eol : (parse text).eol =
      if TextSearch.includes [CR, LF] text then [CR, LF] else [LF] := rfl
  rw [h_eol]
  by_cases h : [CR, LF] ∈ lineEnds text
  · rw [if_pos h, if_pos ((includes_crlf text).mpr h)]
  · rw [if_neg h, if_neg fun h_includes => h ((includes_crlf text).mp h_includes)]

theorem isEnd_of_mem_lineEnds {text e : Text} (h : e ∈ lineEnds text) : IsEnd e := by
  have h_chain := isChain_cutLines text
  rw [lineEnds] at h
  generalize cutLines text = ps at h h_chain
  induction ps with
  | nil => cases h
  | cons p ps ih =>
    cases ps with
    | nil => cases h
    | cons q ps =>
      obtain ⟨h_pq, h_rest⟩ := List.isChain_cons_cons.mp h_chain
      rw [List.dropLast_cons_cons, List.map_cons] at h
      obtain rfl | h := List.mem_cons.mp h
      · exact h_pq.1
      · exact ih h h_rest

/-- A text with one line end is written as it is unless that is a lone CR. -/
theorem uniformEnds_iff (text : Text) :
    (UniformEnds text → (parse text).toText = text) ↔
      ¬ (lineEnds text ≠ [] ∧ ∀ e ∈ lineEnds text, e = [CR]) := by
  rw [toText_parse_eq]
  constructor
  · rintro h ⟨h_ne, h_cr⟩
    obtain ⟨e, h_e⟩ := List.exists_mem_of_ne_nil _ h_ne
    have h_eol := h ⟨[CR], h_cr⟩ e h_e
    rw [h_cr e h_e] at h_eol
    obtain h_lf | h_crlf := isEol_parse text
    · rw [h_lf] at h_eol
      cases h_eol
    · rw [h_crlf] at h_eol
      cases h_eol
  · rintro h ⟨e, h_e⟩ x h_x
    have h_some : e ∈ lineEnds text := h_e x h_x ▸ h_x
    rw [h_e x h_x, eol_parse]
    obtain (rfl | rfl) | rfl := isEnd_of_mem_lineEnds h_some
    · have h_none : [CR, LF] ∉ lineEnds text := by
        intro h_mem
        have h_eq := h_e _ h_mem
        cases h_eq
      rw [if_neg h_none]
    · rw [if_pos h_some]
    · exact absurd ⟨List.ne_nil_of_mem h_some, h_e⟩ h

end Kubek.Properties
