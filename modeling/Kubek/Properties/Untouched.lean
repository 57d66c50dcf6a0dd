/-
  Kubek.Properties.Untouched

  What a document keeps of its text.

  Whatever is set, deleted and assigned, in whatever order: a line stays as it is unless its
  key is named with a new value or removed, and keys that are new come behind all lines, in
  the order of the calls (`frame_run`). After `assign` the record is the assigned one.

  So what a document keeps of its text is a question of the line ends alone: all of it,
  unless the text has lone CRs throughout or other line ends inside an entry than it is
  written with (`keepsUntouched_iff`).
-/

import Kubek.Properties.LineEnds
import Kubek.Properties.SafeEdits

namespace Kubek.Properties

open JsMap
open PropertiesDocument (replaceLast)

/-! ## The frame -/

/-- The calls one after the other. -/
def PropertiesDocument.run (doc : PropertiesDocument) (edits : List Edit) : PropertiesDocument :=
  edits.foldl PropertiesDocument.apply doc

/-- The keys that a call names with a new value or removes. -/
def Edit.touches (doc : PropertiesDocument) : Edit → Text → Prop
  | .set key value, k => k = key ∧ doc.get key ≠ some value
  | .delete key, k => k = key
  | .assign record, k => record.get k ≠ doc.get k

/-- The keys that some call of a run touches. -/
def touched : PropertiesDocument → List Edit → Text → Prop
  | _, [], _ => False
  | doc, edit :: edits, k => edit.touches doc k ∨ touched (doc.apply edit) edits k

/-- Lines in their order, but entries of touched keys may be written anew or be gone. -/
inductive Kept (touched : Text → Prop) : List Line → List Line → Prop
  | nil : Kept touched [] []
  | keep (line : Line) {before after : List Line} :
      Kept touched before after → Kept touched (line :: before) (line :: after)
  | rewrite {key : Text} (old : Text) (raw : Option Text) (new : Text) {before after : List Line} :
      touched key → Kept touched before after →
      Kept touched (.entry key old raw :: before) (.entry key new none :: after)
  | remove {key : Text} (old : Text) (raw : Option Text) {before after : List Line} :
      touched key → Kept touched before after →
      Kept touched (.entry key old raw :: before) after

/-- The keys of a document: those of its text and those that were appended, in order. -/
structure Keys where
  old : List Text
  new : List Text

namespace Keys

def set (s : Keys) (key : Text) : Keys :=
  if s.old.contains key || s.new.contains key then s else { s with new := s.new ++ [key] }

def keep (s : Keys) (p : Text → Bool) : Keys := ⟨s.old.filter p, s.new.filter p⟩

/-- A key that is not there is appended, a removed one is gone. -/
def apply (s : Keys) : Edit → Keys
  | .set key _ => s.set key
  | .delete key => s.keep fun k => k != key
  | .assign record =>
      (record.entries.map Prod.fst).foldl set (s.keep fun k => (record.get k).isSome)

end Keys

/-- An entry that is not of the text. -/
def Appended (key : Text) (line : Line) : Prop := ∃ value, line = .entry key value none

def keysOf (lines : List Line) : List Text := (contents lines).map Prod.fst

/-- What a run leaves of a document: its lines but for the touched entries, and behind them
    the new keys in the order of the calls. -/
structure Frame (doc : PropertiesDocument) (edits : List Edit) : Prop where
  eol : (doc.run edits).eol = doc.eol
  trailingEol : (doc.run edits).trailingEol = doc.trailingEol
  lines : ∃ kept appended, (doc.run edits).lines = kept ++ appended ∧
    Kept (touched doc edits) doc.lines kept ∧
    List.Forall₂ Appended (edits.foldl Keys.apply ⟨keysOf doc.lines, []⟩).new appended

/-- What the document promises of a text. -/
structure KeepsUntouched (text : Text) : Prop where
  whole : UniformEnds text → (parse text).toText = text
  spelled : (parse text).lines.map Line.written = spelledLines text
  frame : ∀ edits, Frame (parse text) edits
  record : ∀ edits record key,
    (((parse text).run edits).assign record).toRecord.get key = record.get key

/-! ## Kept lines -/

section Kept

variable {p q : Text → Prop} {a b c : List Line}

theorem Kept.refl (p : Text → Prop) (lines : List Line) : Kept p lines lines := by
  induction lines with
  | nil => exact .nil
  | cons line lines ih => exact .keep line ih

theorem Kept.mono (h : Kept p a b) (h_le : ∀ k, p k → q k) : Kept q a b := by
  induction h with
  | nil => exact .nil
  | keep line _ ih => exact .keep line ih
  | rewrite old raw new h_key _ ih => exact .rewrite old raw new (h_le _ h_key) ih
  | remove old raw h_key _ ih => exact .remove old raw (h_le _ h_key) ih

theorem Kept.trans (h : Kept p a b) (h' : Kept p b c) : Kept p a c := by
  induction h generalizing c with
  | nil => exact h'
  | keep line _ ih =>
    cases h' with
    | keep _ h' => exact .keep line (ih h')
    | rewrite old raw new h_key h' => exact .rewrite old raw new h_key (ih h')
    | remove old raw h_key h' => exact .remove old raw h_key (ih h')
  | rewrite old raw new h_key _ ih =>
    cases h' with
    | keep _ h' => exact .rewrite old raw new h_key (ih h')
    | rewrite _ _ new' _ h' => exact .rewrite old raw new' h_key (ih h')
    | remove _ _ _ h' => exact .remove old raw h_key (ih h')
  | remove old raw h_key _ ih => exact .remove old raw h_key (ih h')

theorem kept_filter (f : Line → Bool) (h : ∀ line ∈ a, f line = false →
    ∃ key old raw, line = .entry key old raw ∧ p key) : Kept p a (a.filter f) := by
  induction a with
  | nil => exact .nil
  | cons line a ih =>
    have h_rest := ih fun l h_l => h l (List.mem_cons_of_mem _ h_l)
    by_cases h_f : f line = true
    · rw [List.filter_cons_of_pos h_f]
      exact .keep line h_rest
    · rw [List.filter_cons_of_neg h_f]
      obtain ⟨key, old, raw, rfl, h_key⟩ :=
        h line List.mem_cons_self ((Bool.not_eq_true _).mp h_f)
      exact .remove old raw h_key h_rest

theorem kept_replaceLast (key value : Text) (h_key : p key) (lines : List Line) :
    Kept p lines (replaceLast key value lines) := by
  induction lines with
  | nil => exact .nil
  | cons line lines ih =>
    rw [replaceLast]
    split
    · exact .keep line ih
    · split
      · rename_i h_line
        obtain ⟨old, raw, rfl⟩ := hasKey_iff.mp h_line
        exact .rewrite old raw value h_key (Kept.refl p lines)
      · exact .keep line (Kept.refl p lines)

end Kept

/-! ## Keys of lines -/

section Keys

variable {key value : Text} {lines pre post : List Line}

theorem keysOf_cons (line : Line) (lines : List Line) :
    keysOf (line :: lines) = (line.content.map Prod.fst).toList ++ keysOf lines := by
  rw [keysOf, contents_cons, List.map_append, keysOf]
  cases line.content <;> rfl

theorem keysOf_append (xs ys : List Line) : keysOf (xs ++ ys) = keysOf xs ++ keysOf ys := by
  rw [keysOf, contents_append, List.map_append, keysOf, keysOf]

theorem hasKey_eq (line : Line) : line.hasKey key = (line.content.map Prod.fst == some key) := by
  cases line with
  | text raw => rfl
  | entry k v raw => simp [Line.hasKey, Line.content]

theorem mem_keysOf : key ∈ keysOf lines ↔ ∃ line ∈ lines, line.hasKey key = true := by
  simp only [keysOf, contents, List.mem_map, List.mem_filterMap, hasKey_eq, beq_iff_eq,
    Option.map_eq_some_iff]
  constructor
  · rintro ⟨content, ⟨line, h_line, h_content⟩, h_key⟩
    exact ⟨line, h_line, content, h_content, h_key⟩
  · rintro ⟨line, h_line, content, h_content, h_key⟩
    exact ⟨content, ⟨line, h_line, h_content⟩, h_key⟩

theorem get_eq_none {doc : PropertiesDocument} : doc.get key = none ↔ key ∉ keysOf doc.lines := by
  rw [get_eq, lastValue_eq_none, mem_keysOf, not_exists]
  simp only [not_and, Bool.not_eq_true]

/-- The filter takes the notes and the entries of the keys that `f` takes. -/
def FiltersBy (f : Text → Bool) (g : Line → Bool) (lines : List Line) : Prop :=
  ∀ line ∈ lines, g line = (line.content.map Prod.fst).all f

theorem keysOf_filter {f : Text → Bool} {g : Line → Bool} (h : FiltersBy f g lines) :
    keysOf (lines.filter g) = (keysOf lines).filter f := by
  induction lines with
  | nil => rfl
  | cons line lines ih =>
    have h_rest := ih fun l h_l => h l (List.mem_cons_of_mem _ h_l)
    have h_line := h line List.mem_cons_self
    rw [List.filter_cons, keysOf_cons, List.filter_append, ← h_rest, h_line]
    cases h_key : line.content.map Prod.fst with
    | none => simp [keysOf_cons, h_key]
    | some k =>
      cases h_f : f k with
      | true => simp [keysOf_cons, h_key, h_f]
      | false => simp [h_f]

theorem kept_filterBy {f : Text → Bool} {g : Line → Bool} (h : FiltersBy f g lines)
    {p : Text → Prop} (h_p : ∀ k ∈ keysOf lines, f k = false → p k) :
    Kept p lines (lines.filter g) := by
  apply kept_filter
  intro line h_line h_g
  rw [h line h_line] at h_g
  cases line with
  | text raw => cases h_g
  | entry key old raw =>
    refine ⟨key, old, raw, rfl, h_p key ?_ h_g⟩
    exact mem_keysOf.mpr ⟨_, h_line, by simp [Line.hasKey]⟩

theorem keysOf_replaceLast (key value : Text) (lines : List Line) :
    keysOf (replaceLast key value lines) = keysOf lines := by
  induction lines with
  | nil => rfl
  | cons line lines ih =>
    rw [replaceLast]
    split
    · rw [keysOf_cons, keysOf_cons, ih]
    · split
      · rename_i h_line
        obtain ⟨old, raw, rfl⟩ := hasKey_iff.mp h_line
        rfl
      · rfl

/-- The last entry of a key is among the lines behind, if one of them has it. -/
theorem replaceLast_parts (key value : Text) (pre post : List Line) :
    replaceLast key value (pre ++ post) =
      if post.any (Line.hasKey key) then pre ++ replaceLast key value post
      else replaceLast key value pre ++ post := by
  induction pre with
  | nil =>
    by_cases h : post.any (Line.hasKey key) = true
    · rw [if_pos h, List.nil_append, List.nil_append]
    · have h_same : replaceLast key value post = post := by
        cases post with
        | nil => rfl
        | cons line post =>
          simp only [List.any_cons, Bool.or_eq_true, not_or] at h
          rw [replaceLast, if_neg h.2, if_neg h.1]
      rw [if_neg h, List.nil_append, h_same]
      rfl
  | cons line pre ih =>
    rw [List.cons_append, replaceLast, ih, List.any_append]
    by_cases h : post.any (Line.hasKey key) = true
    · simp [h]
    · rw [(Bool.not_eq_true _).mp h, Bool.or_false, replaceLast]
      simp only [Bool.false_eq_true, if_false, List.cons_append]
      split
      · rfl
      · split <;> rfl

end Keys

/-! ## One call -/

/-- The lines of a document: what is left of its text, and what was appended. -/
structure Parts (s : Keys) (kept appended : List Line) : Prop where
  old : keysOf kept = s.old
  new : List.Forall₂ Appended s.new appended

theorem keysOf_appended {ks : List Text} {appended : List Line}
    (h : List.Forall₂ Appended ks appended) : keysOf appended = ks := by
  induction h with
  | nil => rfl
  | cons h_first _ ih =>
    obtain ⟨value, rfl⟩ := h_first
    rw [keysOf_cons, ih]
    rfl

section Step

variable {doc : PropertiesDocument} {s : Keys} {kept appended : List Line}

theorem Parts.contains (h : Parts s kept appended) (h_lines : doc.lines = kept ++ appended)
    (key : Text) : (s.old.contains key || s.new.contains key) = (doc.get key).isSome := by
  have h_keys : keysOf doc.lines = s.old ++ s.new := by
    rw [h_lines, keysOf_append, h.old, keysOf_appended h.new]
  rw [Bool.eq_iff_iff, ← Option.ne_none_iff_isSome, ne_eq, get_eq_none, not_not, h_keys]
  simp

theorem appended_replaceLast (key value : Text) {ks : List Text}
    (h : List.Forall₂ Appended ks appended) :
    List.Forall₂ Appended ks (replaceLast key value appended) := by
  induction h with
  | nil => exact .nil
  | cons h_first h_rest ih =>
    rw [replaceLast]
    split
    · exact .cons h_first ih
    · split
      · rename_i h_key
        obtain ⟨old, rfl⟩ := h_first
        obtain ⟨old', raw, h_eq⟩ := hasKey_iff.mp h_key
        cases h_eq
        exact .cons ⟨value, rfl⟩ h_rest
      · exact .cons h_first h_rest

/-- `set` appends a new key, and touches the key where it has another value. -/
theorem Parts.set (h : Parts s kept appended) (h_lines : doc.lines = kept ++ appended)
    (key value : Text) :
    ∃ kept' appended', (doc.set key value).lines = kept' ++ appended' ∧
      Parts (s.set key) kept' appended' ∧
      Kept (fun k => k = key ∧ doc.get key ≠ some value) kept kept' := by
  have h_contains := h.contains h_lines key
  rw [Keys.set, h_contains, PropertiesDocument.set]
  cases h_get : doc.get key with
  | none =>
    refine ⟨kept, appended ++ [.entry key value none], ?_, ⟨h.old, ?_⟩, Kept.refl _ _⟩
    · simp only [h_lines, List.append_assoc]
    · exact List.rel_append h.new (.cons ⟨value, rfl⟩ .nil)
  | some old =>
    by_cases h_old : old = value
    · refine ⟨kept, appended, ?_, h, Kept.refl _ _⟩
      simp only [h_old, if_true, h_lines]
    · have h_touched : key = key ∧ some old ≠ some value :=
        ⟨rfl, fun h_eq => h_old (Option.some.inj h_eq)⟩
      simp only [h_old, if_false, h_lines, replaceLast_parts, Option.isSome_some, if_true]
      by_cases h_any : appended.any (Line.hasKey key) = true
      · refine ⟨kept, replaceLast key value appended, by rw [if_pos h_any], ⟨h.old, ?_⟩,
          Kept.refl _ _⟩
        exact appended_replaceLast key value h.new
      · refine ⟨replaceLast key value kept, appended, by rw [if_neg h_any],
          ⟨by rw [keysOf_replaceLast, h.old], h.new⟩, ?_⟩
        exact kept_replaceLast key value h_touched kept

theorem appended_filter {f : Text → Bool} {g : Line → Bool} {ks : List Text}
    (h : List.Forall₂ Appended ks appended) (h_appended : FiltersBy f g appended) :
    List.Forall₂ Appended (ks.filter f) (appended.filter g) := by
  induction h with
  | nil => exact .nil
  | @cons key line ks lines h_first h_rest ih =>
    have h_line := h_appended line List.mem_cons_self
    have h_next := ih fun l h_l => h_appended l (List.mem_cons_of_mem _ h_l)
    obtain ⟨value, rfl⟩ := h_first
    have h_g : g (.entry key value none) = f key := h_line
    cases h_f : f key with
    | true =>
      rw [List.filter_cons_of_pos h_f, List.filter_cons_of_pos (h_g.trans h_f)]
      exact .cons ⟨value, rfl⟩ h_next
    | false =>
      rw [List.filter_cons_of_neg (by simp [h_f]), List.filter_cons_of_neg (by simp [h_g, h_f])]
      exact h_next

/-- What is kept by the keys. -/
theorem Parts.keep (h : Parts s kept appended) {f : Text → Bool} {g : Line → Bool}
    (h_kept : FiltersBy f g kept) (h_appended : FiltersBy f g appended) :
    Parts (s.keep f) (kept.filter g) (appended.filter g) :=
  ⟨by rw [keysOf_filter h_kept, h.old]; rfl, appended_filter h.new h_appended⟩

theorem filtersBy_delete (key : Text) (lines : List Line) :
    FiltersBy (fun k => k != key) (fun line => !line.hasKey key) lines := by
  intro line _
  cases line with
  | text raw => rfl
  | entry k v raw => rfl

/-- The line is not of a key that `assign` removes. -/
def stays (doc : PropertiesDocument) (record : JsObject Text Text) (line : Line) : Bool :=
  (doc.keys.filter fun key => (record.get key).isNone).all fun k => !line.hasKey k

theorem lines_pruned (doc : PropertiesDocument) (record : JsObject Text Text) :
    (doc.pruned record).lines = doc.lines.filter (stays doc record) :=
  (lines_deleteAll doc _).1

/-- `assign` first removes the keys that the record does not have. -/
theorem filtersBy_pruned (doc : PropertiesDocument) (record : JsObject Text Text)
    {lines : List Line} (h : ∀ line ∈ lines, line ∈ doc.lines) :
    FiltersBy (fun k => (record.get k).isSome) (stays doc record) lines := by
  intro line h_line
  rw [stays]
  cases line with
  | text raw => simp [Line.hasKey, Line.content]
  | entry key value raw =>
    have h_key : key ∈ doc.keys := by
      rw [mem_keys, ← Option.ne_none_iff_isSome, ne_eq, get_eq_none, not_not, mem_keysOf]
      exact ⟨_, h _ h_line, by simp [Line.hasKey]⟩
    simp only [Line.content, Option.map_some, Option.all_some]
    rw [Bool.eq_iff_iff, List.all_eq_true]
    constructor
    · intro h_all
      by_contra h_none
      have h_mem : key ∈ doc.keys.filter fun k => (record.get k).isNone := by
        rw [List.mem_filter]
        exact ⟨h_key, by simpa using h_none⟩
      have h_no := h_all key h_mem
      simp [Line.hasKey] at h_no
    · intro h_some k h_k
      rw [List.mem_filter] at h_k
      have h_ne : key ≠ k := by
        rintro rfl
        rw [Option.isNone_iff_eq_none] at h_k
        rw [h_k.2] at h_some
        cases h_some
      simpa [Line.hasKey] using h_ne

/-- The loop of `assign` over the record: every key has its turn once. -/
theorem Parts.setAll {es : List (Text × Text)} (h_nodup : (es.map Prod.fst).Nodup)
    (h : Parts s kept appended) (h_lines : doc.lines = kept ++ appended) :
    ∃ kept' appended', (setAll doc es).lines = kept' ++ appended' ∧
      Parts ((es.map Prod.fst).foldl Keys.set s) kept' appended' ∧
      Kept (fun k => ∃ value, (k, value) ∈ es ∧ doc.get k ≠ some value) kept kept' := by
  induction es generalizing doc s kept appended with
  | nil => exact ⟨kept, appended, h_lines, h, Kept.refl _ _⟩
  | cons e es ih =>
    obtain ⟨kept₁, appended₁, h_lines₁, h₁, h_kept₁⟩ := h.set h_lines e.1 e.2
    obtain ⟨kept₂, appended₂, h_lines₂, h₂, h_kept₂⟩ :=
      ih (List.nodup_cons.mp h_nodup).2 h₁ h_lines₁
    refine ⟨kept₂, appended₂, h_lines₂, h₂, Kept.trans (h_kept₁.mono ?_) (h_kept₂.mono ?_)⟩
    · rintro k ⟨rfl, h_ne⟩
      exact ⟨e.2, List.mem_cons_self, h_ne⟩
    · rintro k ⟨value, h_mem, h_ne⟩
      rw [get_set_of_mem h_nodup h_mem] at h_ne
      exact ⟨value, List.mem_cons_of_mem _ h_mem, h_ne⟩

/-- One call: the kept lines, the appended ones and the keys. -/
theorem Parts.apply (h : Parts s kept appended) (h_lines : doc.lines = kept ++ appended)
    (edit : Edit) :
    ∃ kept' appended', (doc.apply edit).lines = kept' ++ appended' ∧
      Parts (s.apply edit) kept' appended' ∧ Kept (edit.touches doc) kept kept' := by
  cases edit with
  | set key value => exact h.set h_lines key value
  | delete key =>
    refine ⟨_, _, ?_, h.keep (filtersBy_delete key kept) (filtersBy_delete key appended), ?_⟩
    · show doc.lines.filter _ = _
      rw [h_lines, List.filter_append]
    · refine kept_filterBy (filtersBy_delete key kept) fun k _ h_k => ?_
      show k = key
      simpa using h_k
  | assign record =>
    have h_mem : ∀ lines, (lines = kept ∨ lines = appended) → ∀ line ∈ lines, line ∈ doc.lines := by
      rintro lines (rfl | rfl) line h_line <;> rw [h_lines]
      · exact List.mem_append_left _ h_line
      · exact List.mem_append_right _ h_line
    have h_kept := filtersBy_pruned doc record (h_mem kept (.inl rfl))
    have h_appended := filtersBy_pruned doc record (h_mem appended (.inr rfl))
    have h_pruned : (doc.pruned record).lines =
        kept.filter (stays doc record) ++ appended.filter (stays doc record) := by
      rw [lines_pruned, ← List.filter_append, ← h_lines]
    obtain ⟨kept', appended', h_lines', h', h_all⟩ :=
      (h.keep h_kept h_appended).setAll record.nodup h_pruned
    refine ⟨kept', appended', h_lines', h', Kept.trans ?_ (h_all.mono ?_)⟩
    · refine kept_filterBy h_kept fun k h_k h_none => ?_
      have h_doc : doc.get k ≠ none := by
        rw [ne_eq, get_eq_none, not_not, h_lines, keysOf_append]
        exact List.mem_append_left _ h_k
      show record.get k ≠ doc.get k
      have h_record : record.get k = none := by simpa using h_none
      rw [h_record]
      exact Ne.symm h_doc
    · rintro k ⟨value, h_value, h_ne⟩
      have h_record := (JsObject.get_eq_some_iff record k value).mpr h_value
      rw [get_pruned, h_record, Option.isSome_some, if_pos rfl] at h_ne
      show record.get k ≠ doc.get k
      rw [h_record]
      exact Ne.symm h_ne

end Step

/-! ## Every run -/

theorem trailingEol_setAll (doc : PropertiesDocument) (es : List (Text × Text)) :
    (setAll doc es).trailingEol = doc.trailingEol := by
  induction es generalizing doc with
  | nil => rfl
  | cons e es ih =>
    rw [setAll_cons, ih, PropertiesDocument.set]
    split
    · rfl
    · split <;> rfl

theorem trailingEol_deleteAll (doc : PropertiesDocument) (ks : List Text) :
    (ks.foldl (fun d k => (d.delete k).2) doc).trailingEol = doc.trailingEol := by
  induction ks generalizing doc with
  | nil => rfl
  | cons k ks ih => rw [List.foldl_cons, ih]; rfl

/-- No call changes how lines are joined. -/
theorem ends_apply (doc : PropertiesDocument) (edit : Edit) :
    (doc.apply edit).eol = doc.eol ∧ (doc.apply edit).trailingEol = doc.trailingEol := by
  cases edit with
  | set key value => exact ⟨eol_set, trailingEol_setAll doc [(key, value)]⟩
  | delete key => exact ⟨rfl, rfl⟩
  | assign record =>
    refine ⟨(eol_setAll _ _).trans ?_, (trailingEol_setAll _ _).trans ?_⟩
    · exact (lines_deleteAll doc _).2
    · exact trailingEol_deleteAll doc _

theorem run_parts (edits : List Edit) {doc : PropertiesDocument} {s : Keys}
    {kept appended : List Line} (h : Parts s kept appended)
    (h_lines : doc.lines = kept ++ appended) :
    ∃ kept' appended', (doc.run edits).lines = kept' ++ appended' ∧
      Parts (edits.foldl Keys.apply s) kept' appended' ∧ Kept (touched doc edits) kept kept' := by
  induction edits generalizing doc s kept appended with
  | nil => exact ⟨kept, appended, h_lines, h, Kept.refl _ _⟩
  | cons edit edits ih =>
    obtain ⟨kept₁, appended₁, h_lines₁, h₁, h_kept₁⟩ := h.apply h_lines edit
    obtain ⟨kept₂, appended₂, h_lines₂, h₂, h_kept₂⟩ := ih h₁ h_lines₁
    exact ⟨kept₂, appended₂, h_lines₂, h₂,
      (h_kept₁.mono fun k h_k => .inl h_k).trans (h_kept₂.mono fun k h_k => .inr h_k)⟩

theorem frame_run (doc : PropertiesDocument) (edits : List Edit) : Frame doc edits := by
  have h_start : Parts ⟨keysOf doc.lines, []⟩ doc.lines [] := ⟨rfl, .nil⟩
  obtain ⟨kept, appended, h_lines, h_parts, h_kept⟩ :=
    run_parts edits h_start (List.append_nil doc.lines).symm
  have h_ends : (doc.run edits).eol = doc.eol ∧ (doc.run edits).trailingEol = doc.trailingEol := by
    clear h_start h_lines h_parts h_kept
    induction edits generalizing doc with
    | nil => exact ⟨rfl, rfl⟩
    | cons edit edits ih =>
      obtain ⟨h_eol, h_trailing⟩ := ih (doc.apply edit)
      obtain ⟨h_eol', h_trailing'⟩ := ends_apply doc edit
      exact ⟨h_eol.trans h_eol', h_trailing.trans h_trailing'⟩
  exact ⟨h_ends.1, h_ends.2, kept, appended, h_lines, h_kept, h_parts.new⟩

theorem get_setAll_of_mem {es : List (Text × Text)} (h_nodup : (es.map Prod.fst).Nodup)
    {k value : Text} (h_mem : (k, value) ∈ es) (doc : PropertiesDocument) :
    (setAll doc es).get k = some value := by
  induction es using List.reverseRecOn with
  | nil => cases h_mem
  | append_singleton es e ih =>
    have h_all : setAll doc (es ++ [e]) = (setAll doc es).set e.1 e.2 := by
      rw [setAll, List.foldl_append]
      rfl
    rw [List.map_append, List.nodup_append] at h_nodup
    rw [h_all, get_set]
    obtain h_es | h_e := List.mem_append.mp h_mem
    · have h_ne : k ≠ e.1 :=
        h_nodup.2.2 k (List.mem_map_of_mem (f := Prod.fst) h_es) e.1 (by simp)
      rw [if_neg h_ne]
      exact ih h_nodup.1 h_es
    · rw [List.mem_singleton] at h_e
      rw [← h_e, if_pos rfl]

theorem get_setAll_of_not_mem {es : List (Text × Text)} {k : Text}
    (h : k ∉ es.map Prod.fst) (doc : PropertiesDocument) : (setAll doc es).get k = doc.get k := by
  induction es generalizing doc with
  | nil => rfl
  | cons e es ih =>
    rw [List.map_cons, List.mem_cons, not_or] at h
    rw [setAll_cons, ih h.2, get_set, if_neg h.1]

/-- After `assign` the record is the assigned one. -/
theorem get_assign (doc : PropertiesDocument) (record : JsObject Text Text) (key : Text) :
    (doc.assign record).toRecord.get key = record.get key := by
  rw [get_toRecord]
  show (setAll (doc.pruned record) record.entries).get key = _
  cases h_record : record.get key with
  | none =>
    have h_not : key ∉ record.entries.map Prod.fst := by
      rintro h_mem
      obtain ⟨e, h_e, rfl⟩ := List.mem_map.mp h_mem
      rw [(JsObject.get_eq_some_iff record e.1 e.2).mpr h_e] at h_record
      cases h_record
    rw [get_setAll_of_not_mem h_not, get_pruned, h_record]
    rfl
  | some value =>
    exact get_setAll_of_mem record.nodup ((JsObject.get_eq_some_iff record key value).mp h_record) _

/-- The line end that a text is written with. -/
def commonEnd (text : Text) : Text :=
  if (lineEnds text).contains [CR, LF] then [CR, LF] else [LF]

/-- A document keeps what is not touched if and only if its text has not lone CRs throughout
    and the line ends inside its entries are the one it is written with. -/
theorem keepsUntouched_iff (text : Text) :
    KeepsUntouched text ↔
      ¬ (lineEnds text ≠ [] ∧ ∀ e ∈ lineEnds text, e = [CR]) ∧
        ∀ e ∈ innerEnds text, e = commonEnd text := by
  have h_common : (parse text).eol = commonEnd text := by
    rw [eol_parse, commonEnd]
    simp only [List.contains_iff_mem]
  rw [← uniformEnds_iff, ← h_common, ← written_parse_eq]
  constructor
  · exact fun h => ⟨h.whole, h.spelled⟩
  · exact fun h => ⟨h.1, h.2, fun edits => frame_run _ edits, fun _ _ _ => get_assign _ _ _⟩

/-- Two entries with a lone CR between them: the document is written with a LF. -/
theorem cr_is_not_kept : ¬ ∀ text, KeepsUntouched text := by
  intro h
  have h_text := (h [0x61, 0x3D, 0x31, CR, 0x62, 0x3D, 0x32]).whole ⟨[CR], by decide⟩
  revert h_text
  decide +kernel

end Kubek.Properties
