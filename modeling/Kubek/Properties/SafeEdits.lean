/-
  Kubek.Properties.SafeEdits

  Edits whose result is read back.

  A parsed document has at most its last line open, and stays so under edits that do not
  put a line after an open one. Two kinds of edits spoil this, and only those are not
  `safe`:

    * one that writes a key whose first unit is white space that `trimStart` takes off and
      `escapeKey` leaves as it is;
    * one that appends an entry behind an untouched last entry that ends in an odd number
      of backslashes.

  In every document reached by safe edits the text is read back as the record of the
  document, and no safe edit changes what is read back for a key it does not name
  (`rereads_of_reachableUnder`).
-/

import Kubek.Lib.Machine
import Kubek.Properties.Reread

namespace Kubek.Properties

open JsMap Transition
open PropertiesDocument (replaceLast)

/-! ## Looking up a key -/

/-- The value of the last entry with the key. -/
def lastValue (key : Text) (lines : List Line) : Option Text :=
  (lines.reverse.find? (Line.hasKey key)).bind Line.value?

section Lookup

variable {key value : Text} {lines pre post : List Line}

theorem get_eq (doc : PropertiesDocument) (key : Text) : doc.get key = lastValue key doc.lines := rfl

theorem lastValue_nil (key : Text) : lastValue key [] = none := rfl

theorem lastValue_concat (key : Text) (lines : List Line) (line : Line) :
    lastValue key (lines ++ [line]) =
      if line.hasKey key then line.value? else lastValue key lines := by
  rw [lastValue, List.reverse_append, List.reverse_singleton, List.singleton_append,
    List.find?_cons]
  cases line.hasKey key <;> rfl

theorem hasKey_iff {line : Line} :
    line.hasKey key = true ↔ ∃ value raw, line = .entry key value raw := by
  cases line with
  | text raw => simp [Line.hasKey]
  | entry k v raw => simp [Line.hasKey]

theorem lastValue_eq_none : lastValue key lines = none ↔ ∀ line ∈ lines, line.hasKey key = false := by
  induction lines using List.reverseRecOn with
  | nil => simp [lastValue_nil]
  | append_singleton lines line ih =>
    rw [lastValue_concat]
    by_cases h : line.hasKey key = true
    · obtain ⟨v, raw, rfl⟩ := hasKey_iff.mp h
      rw [if_pos h]
      refine ⟨fun h_none => (by cases h_none), fun h_all => ?_⟩
      rw [h_all _ (by simp)] at h
      cases h
    · rw [if_neg h, ih]
      simp only [List.mem_append, List.mem_singleton]
      constructor
      · rintro h_all l (h_l | rfl)
        · exact h_all l h_l
        · exact (Bool.not_eq_true _).mp h
      · exact fun h_all l h_l => h_all l (.inl h_l)

/-- The last entry of a key, what is before and what is after it. -/
theorem exists_last (h : lastValue key lines = some value) :
    ∃ pre raw post, lines = pre ++ .entry key value raw :: post ∧
      ∀ line ∈ post, line.hasKey key = false := by
  induction lines using List.reverseRecOn with
  | nil => cases h
  | append_singleton lines line ih =>
    rw [lastValue_concat] at h
    split at h
    · rename_i h_key
      obtain ⟨v, raw, rfl⟩ := hasKey_iff.mp h_key
      cases h
      exact ⟨lines, raw, [], rfl, by simp⟩
    · rename_i h_key
      obtain ⟨pre, raw, post, rfl, h_post⟩ := ih h
      refine ⟨pre, raw, post ++ [line], by simp, fun l h_l => ?_⟩
      obtain h_l | h_l := List.mem_append.mp h_l
      · exact h_post l h_l
      · rw [List.mem_singleton.mp h_l]
        exact (Bool.not_eq_true _).mp h_key

/-- Behind the lines of other keys nothing is looked up. -/
theorem lastValue_append (h : ∀ line ∈ post, line.hasKey key = false) :
    lastValue key (pre ++ post) = lastValue key pre := by
  induction post using List.reverseRecOn with
  | nil => rw [List.append_nil]
  | append_singleton post line ih =>
    rw [← List.append_assoc, lastValue_concat, if_neg (by simp [h line (by simp)])]
    exact ih fun l h_l => h l (List.mem_append_left _ h_l)

theorem lastValue_split (h : ∀ line ∈ post, line.hasKey key = false) (raw : Option Text) :
    lastValue key (pre ++ .entry key value raw :: post) = some value := by
  rw [← List.singleton_append, ← List.append_assoc, lastValue_append h, lastValue_concat]
  simp [Line.hasKey, Line.value?]

/-- A line of another key makes no difference. -/
theorem lastValue_other {line line' : Line} (h : line.hasKey key = false)
    (h' : line'.hasKey key = false) :
    lastValue key (pre ++ line :: post) = lastValue key (pre ++ line' :: post) := by
  induction post using List.reverseRecOn with
  | nil => rw [lastValue_concat, lastValue_concat, if_neg (by simp [h]), if_neg (by simp [h'])]
  | append_singleton post last ih =>
    rw [← List.cons_append, ← List.cons_append, ← List.append_assoc, ← List.append_assoc,
      lastValue_concat, lastValue_concat, ih]

/-- Removing the lines of one key. -/
theorem lastValue_filter (key k : Text) (lines : List Line) :
    lastValue k (lines.filter fun line => !line.hasKey key) =
      if k = key then none else lastValue k lines := by
  induction lines using List.reverseRecOn with
  | nil => simp [lastValue_nil]
  | append_singleton lines line ih =>
    rw [List.filter_append, lastValue_concat]
    by_cases h_key : line.hasKey key = true
    · obtain ⟨v, raw, rfl⟩ := hasKey_iff.mp h_key
      have h_gone : [Line.entry key v raw].filter (fun line => !line.hasKey key) = [] := by
        simp [Line.hasKey]
      rw [h_gone, List.append_nil, ih]
      by_cases h_k : k = key
      · rw [if_pos h_k, if_pos h_k]
      · rw [if_neg h_k, if_neg h_k, if_neg (by simpa [Line.hasKey] using Ne.symm h_k)]
    · have h_kept : [line].filter (fun line => !line.hasKey key) = [line] := by simp [h_key]
      rw [h_kept, lastValue_concat, ih]
      by_cases h_k : k = key
      · rw [h_k, if_neg h_key, if_pos rfl, if_pos rfl]
      · rw [if_neg h_k, if_neg h_k]

theorem replaceLast_append (h : ∀ line ∈ post, line.hasKey key = false) (raw : Option Text)
    (old new : Text) :
    replaceLast key new (pre ++ .entry key old raw :: post) =
      pre ++ .entry key new none :: post := by
  induction pre with
  | nil =>
    have h_any : post.any (Line.hasKey key) = false := by
      rw [List.any_eq_false]
      exact fun l h_l => by simp [h l h_l]
    simp [replaceLast, h_any, Line.hasKey]
  | cons line pre ih =>
    have h_any : (pre ++ .entry key old raw :: post).any (Line.hasKey key) = true := by
      simp [Line.hasKey]
    rw [List.cons_append, replaceLast, if_pos h_any, ih]
    rfl

end Lookup

/-! ## What an edit does to the lines -/

section Edit

variable {doc : PropertiesDocument} {key value k : Text}

/-- The last entry of the key, wherever it is, is written anew. -/
theorem lines_set_split {pre post : List Line} {old : Text} {raw : Option Text}
    (h_lines : doc.lines = pre ++ .entry key old raw :: post)
    (h_post : ∀ line ∈ post, line.hasKey key = false) (h_ne : old ≠ value) :
    (doc.set key value).lines = pre ++ .entry key value none :: post := by
  have h_get : doc.get key = some old := by
    rw [get_eq, h_lines]
    exact lastValue_split h_post raw
  simp only [PropertiesDocument.set, h_get, h_ne, if_false, h_lines, replaceLast_append h_post]

/-- A new entry at the end, no change, or the last entry of the key written anew. -/
theorem set_cases (doc : PropertiesDocument) (key value : Text) :
    (doc.get key = none ∧ (doc.set key value).lines = doc.lines ++ [.entry key value none]) ∨
      (doc.get key = some value ∧ doc.set key value = doc) ∨
      ∃ old pre raw post, old ≠ value ∧ doc.get key = some old ∧
        doc.lines = pre ++ .entry key old raw :: post ∧
        (∀ line ∈ post, line.hasKey key = false) ∧
        (doc.set key value).lines = pre ++ .entry key value none :: post := by
  cases h_get : doc.get key with
  | none => exact .inl ⟨rfl, by simp [PropertiesDocument.set, h_get]⟩
  | some old =>
    by_cases h_old : old = value
    · exact .inr (.inl ⟨by rw [h_old], by simp [PropertiesDocument.set, h_get, h_old]⟩)
    · obtain ⟨pre, raw, post, h_lines, h_post⟩ := exists_last h_get
      exact .inr (.inr ⟨old, pre, raw, post, h_old, rfl, h_lines, h_post,
        lines_set_split h_lines h_post h_old⟩)

@[simp] theorem eol_set : (doc.set key value).eol = doc.eol := by
  simp only [PropertiesDocument.set]
  split
  · rfl
  · split <;> rfl

theorem get_set : (doc.set key value).get k = if k = key then some value else doc.get k := by
  obtain ⟨h_get, h_lines⟩ | ⟨h_get, h_same⟩ | ⟨old, pre, raw, post, -, h_get, h_old, h_post, h_lines⟩ :=
    set_cases doc key value
  · rw [get_eq, h_lines, lastValue_concat]
    by_cases h : k = key
    · simp [Line.hasKey, h, Line.value?]
    · simp [Line.hasKey, h, Ne.symm h, get_eq]
  · rw [h_same]
    by_cases h : k = key
    · rw [if_pos h, h, h_get]
    · rw [if_neg h]
  · rw [get_eq, get_eq, h_lines, h_old]
    by_cases h : k = key
    · rw [if_pos h, h, lastValue_split h_post]
    · rw [if_neg h]
      exact lastValue_other (by simpa [Line.hasKey] using Ne.symm h)
        (by simpa [Line.hasKey] using Ne.symm h)

@[simp] theorem eol_delete : (doc.delete key).2.eol = doc.eol := rfl

theorem get_delete : (doc.delete key).2.get k = if k = key then none else doc.get k :=
  lastValue_filter key k doc.lines

/-! ### The record -/

theorem toRecord_eq (doc : PropertiesDocument) :
    doc.toRecord = (contents doc.lines).foldl (fun values e => values.set e.1 e.2) .empty := by
  rw [PropertiesDocument.toRecord]
  generalize (JsObject.empty : JsObject Text Text) = values
  induction doc.lines generalizing values with
  | nil => rfl
  | cons line lines ih =>
    rw [List.foldl_cons, ih, contents_cons, List.foldl_append]
    cases line with
    | text raw => rfl
    | entry key value raw => rfl

theorem get_toRecord (doc : PropertiesDocument) (key : Text) :
    doc.toRecord.get key = doc.get key := by
  rw [toRecord_eq, get_eq]
  induction doc.lines using List.reverseRecOn with
  | nil => rfl
  | append_singleton lines line ih =>
    rw [contents_append, contents_cons, List.foldl_append, lastValue_concat, ← ih]
    cases line with
    | text raw => rfl
    | entry k v raw =>
      by_cases h : key = k
      · simp [Line.content, Line.hasKey, Line.value?, h]
      · simp [Line.content, Line.hasKey, h, Ne.symm h]

theorem mem_keys : key ∈ doc.keys ↔ (doc.get key).isSome = true := by
  rw [PropertiesDocument.keys, ← get_toRecord]
  constructor
  · intro h
    obtain ⟨e, h_e, rfl⟩ := List.mem_map.mp h
    rw [(JsObject.get_eq_some_iff doc.toRecord e.1 e.2).mpr h_e]
    rfl
  · intro h
    obtain ⟨value, h_value⟩ := Option.isSome_iff_exists.mp h
    exact List.mem_map.mpr ⟨(key, value), (JsObject.get_eq_some_iff _ _ _).mp h_value, rfl⟩

/-! ### Keeping to the keys of a record -/

theorem lines_deleteAll (doc : PropertiesDocument) (ks : List Text) :
    (ks.foldl (fun d k => (d.delete k).2) doc).lines =
        doc.lines.filter (fun line => ks.all fun k => !line.hasKey k) ∧
      (ks.foldl (fun d k => (d.delete k).2) doc).eol = doc.eol := by
  induction ks generalizing doc with
  | nil => simp
  | cons k ks ih =>
    obtain ⟨h_lines, h_eol⟩ := ih (doc.delete k).2
    rw [List.foldl_cons, h_lines, h_eol, PropertiesDocument.delete]
    refine ⟨?_, rfl⟩
    rw [List.filter_filter]
    congr 1
    funext line
    rw [List.all_cons, Bool.and_comm]

theorem get_deleteAll (doc : PropertiesDocument) (ks : List Text) (k : Text) :
    (ks.foldl (fun d k => (d.delete k).2) doc).get k = if k ∈ ks then none else doc.get k := by
  induction ks generalizing doc with
  | nil => simp
  | cons k' ks ih =>
    rw [List.foldl_cons, ih, get_delete]
    by_cases h_mem : k ∈ ks
    · simp [h_mem]
    · by_cases h_eq : k = k'
      · simp [h_eq]
      · simp [h_mem, h_eq]

theorem get_pruned (doc : PropertiesDocument) (record : JsObject Text Text) (k : Text) :
    (doc.pruned record).get k = if (record.get k).isSome then doc.get k else none := by
  rw [PropertiesDocument.pruned, get_deleteAll]
  simp only [List.mem_filter, mem_keys]
  cases h_record : record.get k with
  | none =>
    cases h_doc : doc.get k with
    | none => simp
    | some value => simp
  | some value => simp

end Edit

/-! ## Safe edits -/

namespace PropertiesDocument

variable (doc : PropertiesDocument)

/-- The last line is an untouched entry that ends in an odd number of backslashes. -/
def endsOpen : Bool :=
  match doc.lines.getLast? with
  | some line => line.dangles
  | none => false

/-- The record has the last entry as it is. -/
def keepsLast (record : JsObject Text Text) : Bool :=
  match doc.lines.getLast? with
  | some (.entry key value _) => record.get key == some value
  | _ => false

/-- Every key that is written is one that is read back, and nothing is appended behind an
    entry that is open and stays. -/
def safe : Edit → Bool
  | .set key value =>
      doc.get key == some value || (!losesStart key && (doc.has key || !doc.endsOpen))
  | .delete _ => true
  | .assign record =>
      record.entries.all (fun e => doc.get e.1 == some e.2 || !losesStart e.1) &&
        (!doc.endsOpen || !doc.keepsLast record || record.entries.all fun e => doc.has e.1)

end PropertiesDocument

/-- The key is one of those the edit is about; `assign` is about all. -/
def Edit.names : Edit → Text → Prop
  | .set key _, k => k = key
  | .delete key, k => k = key
  | .assign _, _ => True

/-- No line is open. -/
def NoneOpen (lines : List Line) : Prop := ∀ line ∈ lines, line.dangles = false

/-- No line before the last one is open. -/
def LastOnly (lines : List Line) : Prop := NoneOpen lines.dropLast

/-- Only the last entry of the key may be open. -/
def KeyOnly (key value : Text) (lines : List Line) : Prop :=
  ∃ pre raw post, lines = pre ++ .entry key value raw :: post ∧ NoneOpen pre ∧ NoneOpen post ∧
    ∀ line ∈ post, line.hasKey key = false

section Positions

variable {lines pre post : List Line} {line line' : Line} {key value : Text}

theorem noneOpen_append : NoneOpen (pre ++ post) ↔ NoneOpen pre ∧ NoneOpen post := by
  simp only [NoneOpen, List.mem_append]
  constructor
  · exact fun h => ⟨fun l h_l => h l (.inl h_l), fun l h_l => h l (.inr h_l)⟩
  · rintro ⟨h_pre, h_post⟩ l (h_l | h_l)
    · exact h_pre l h_l
    · exact h_post l h_l

theorem noneOpen_cons : NoneOpen (line :: lines) ↔ line.dangles = false ∧ NoneOpen lines := by
  simp [NoneOpen]

theorem NoneOpen.lastOnly (h : NoneOpen lines) : LastOnly lines :=
  fun l h_l => h l (List.dropLast_subset _ h_l)

theorem lastOnly_concat : LastOnly (lines ++ [line]) ↔ NoneOpen lines := by
  rw [LastOnly, List.dropLast_concat]

theorem noneOpen_of_endsOpen {doc : PropertiesDocument} (h : LastOnly doc.lines)
    (h_end : doc.endsOpen = false) : NoneOpen doc.lines := by
  rcases List.eq_nil_or_concat doc.lines with h_nil | ⟨init, last, h_lines⟩
  · rw [h_nil]
    exact fun l h_l => by cases h_l
  · rw [PropertiesDocument.endsOpen, h_lines] at h_end
    simp only [List.concat_eq_append, List.getLast?_concat] at h_end
    rw [h_lines, List.concat_eq_append] at h ⊢
    rw [noneOpen_append]
    exact ⟨lastOnly_concat.mp h, noneOpen_cons.mpr ⟨h_end, fun l h_l => by cases h_l⟩⟩

/-- A closed line in the place of another. -/
theorem lastOnly_replace (h : LastOnly (pre ++ line :: post)) (h_line : line'.dangles = false) :
    LastOnly (pre ++ line' :: post) := by
  rcases List.eq_nil_or_concat post with rfl | ⟨init, last, rfl⟩
  · rw [lastOnly_concat] at h ⊢
    exact h
  · rw [List.concat_eq_append, ← List.cons_append, ← List.append_assoc, lastOnly_concat,
      noneOpen_append, noneOpen_cons] at h ⊢
    exact ⟨h.1, h_line, h.2.2⟩

theorem lastOnly_filter (h : LastOnly lines) (q : Line → Bool) : LastOnly (lines.filter q) := by
  rcases List.eq_nil_or_concat lines with rfl | ⟨init, last, rfl⟩
  · exact h
  · rw [List.concat_eq_append, lastOnly_concat] at h
    have h_init : NoneOpen (init.filter q) := fun l h_l => h l (List.mem_of_mem_filter h_l)
    rw [List.concat_eq_append, List.filter_append]
    by_cases h_last : q last = true
    · rw [show [last].filter q = [last] by simp [h_last], lastOnly_concat]
      exact h_init
    · rw [show [last].filter q = [] by simp [h_last], List.append_nil]
      exact h_init.lastOnly

end Positions

section Set

variable {doc : PropertiesDocument} {key value : Text}

theorem fine_set (h : ∀ line ∈ doc.lines, Fine doc.eol line)
    (h_key : doc.get key = some value ∨ losesStart key = false) :
    ∀ line ∈ (doc.set key value).lines, Fine doc.eol line := by
  obtain ⟨h_get, h_lines⟩ | ⟨h_get, h_same⟩ | ⟨old, pre, raw, post, h_ne, h_get, h_old, -, h_lines⟩ :=
    set_cases doc key value
  · have h_fine := fine_written doc.eol value (h_key.resolve_left (by simp [h_get]))
    intro line h_line
    rw [h_lines] at h_line
    obtain h_line | h_line := List.mem_append.mp h_line
    · exact h line h_line
    · rwa [List.mem_singleton.mp h_line]
  · rwa [h_same]
  · have h_fine := fine_written doc.eol value (h_key.resolve_left (by simp [h_get, h_ne]))
    intro line h_line
    rw [h_lines] at h_line
    obtain h_line | h_line := List.mem_append.mp h_line
    · exact h line (by simp [h_old, h_line])
    · obtain rfl | h_line := List.mem_cons.mp h_line
      · exact h_fine
      · exact h line (by simp [h_old, h_line])

theorem noneOpen_set (h : NoneOpen doc.lines) : NoneOpen (doc.set key value).lines := by
  obtain ⟨-, h_lines⟩ | ⟨-, h_same⟩ | ⟨old, pre, raw, post, -, -, h_old, -, h_lines⟩ :=
    set_cases doc key value
  · rw [h_lines, noneOpen_append]
    exact ⟨h, noneOpen_cons.mpr ⟨rfl, fun l h_l => by cases h_l⟩⟩
  · rwa [h_same]
  · rw [h_old, noneOpen_append, noneOpen_cons] at h
    rw [h_lines, noneOpen_append, noneOpen_cons]
    exact ⟨h.1, rfl, h.2.2⟩

theorem lastOnly_set (h : LastOnly doc.lines)
    (h_has : doc.has key = true ∨ doc.endsOpen = false) : LastOnly (doc.set key value).lines := by
  obtain ⟨h_get, h_lines⟩ | ⟨-, h_same⟩ | ⟨old, pre, raw, post, -, -, h_old, -, h_lines⟩ :=
    set_cases doc key value
  · have h_end := h_has.resolve_left (by simp [PropertiesDocument.has, h_get])
    rw [h_lines, lastOnly_concat]
    exact noneOpen_of_endsOpen h h_end
  · rwa [h_same]
  · rw [h_old] at h
    rw [h_lines]
    exact lastOnly_replace h rfl

/-- Writing the open entry anew closes it. -/
theorem noneOpen_set_key {old : Text} (h : KeyOnly key old doc.lines) (h_ne : old ≠ value) :
    NoneOpen (doc.set key value).lines := by
  obtain ⟨pre, raw, post, h_lines, h_pre, h_rest, h_post⟩ := h
  rw [lines_set_split h_lines h_post h_ne, noneOpen_append, noneOpen_cons]
  exact ⟨h_pre, rfl, h_rest⟩

/-- Writing another key leaves it the only open one. -/
theorem keyOnly_set {k old : Text} (h : KeyOnly k old doc.lines) (h_ne : key ≠ k) :
    KeyOnly k old (doc.set key value).lines := by
  obtain ⟨pre, raw, post, h_lines, h_pre, h_rest, h_post⟩ := h
  have h_mid : (Line.entry k old raw).hasKey key = false := by
    simpa [Line.hasKey] using Ne.symm h_ne
  have h_new : (Line.entry key value none).hasKey k = false := by simpa [Line.hasKey] using h_ne
  cases h_after : lastValue key post with
  | some v =>
    -- The entry that is set is behind the open one.
    obtain ⟨p1, raw1, p2, rfl, h_p2⟩ := exists_last h_after
    by_cases h_v : v = value
    · have h_same : doc.set key value = doc := by
        have h_get : doc.get key = some v := by
          rw [get_eq, h_lines, ← List.cons_append, ← List.append_assoc]
          exact lastValue_split h_p2 raw1
        simp [PropertiesDocument.set, h_get, h_v]
      rw [h_same]
      exact ⟨pre, raw, _, h_lines, h_pre, h_rest, h_post⟩
    · rw [← List.cons_append, ← List.append_assoc] at h_lines
      rw [lines_set_split h_lines h_p2 h_v]
      rw [noneOpen_append, noneOpen_cons] at h_rest
      refine ⟨pre, raw, p1 ++ .entry key value none :: p2, by simp, h_pre, ?_, fun l h_l => ?_⟩
      · rw [noneOpen_append, noneOpen_cons]
        exact ⟨h_rest.1, rfl, h_rest.2.2⟩
      · obtain h_l | h_l := List.mem_append.mp h_l
        · exact h_post l (by simp [h_l])
        · obtain rfl | h_l := List.mem_cons.mp h_l
          · exact h_new
          · exact h_post l (by simp [h_l])
  | none =>
    have h_none := lastValue_eq_none.mp h_after
    obtain ⟨-, h_set⟩ | ⟨-, h_same⟩ | ⟨v, -, -, -, h_v, h_get, -, -, -⟩ :=
      set_cases doc key value
    · rw [h_set, h_lines]
      refine ⟨pre, raw, post ++ [.entry key value none], by simp, h_pre, ?_, fun l h_l => ?_⟩
      · rw [noneOpen_append]
        exact ⟨h_rest, noneOpen_cons.mpr ⟨rfl, fun l h_l => by cases h_l⟩⟩
      · obtain h_l | h_l := List.mem_append.mp h_l
        · exact h_post l h_l
        · rwa [List.mem_singleton.mp h_l]
    · rw [h_same]
      exact ⟨pre, raw, post, h_lines, h_pre, h_rest, h_post⟩
    · -- It is before the open one.
      have h_behind : ∀ l ∈ Line.entry k old raw :: post, l.hasKey key = false := by
        intro l h_l
        obtain rfl | h_l := List.mem_cons.mp h_l
        · exact h_mid
        · exact h_none l h_l
      rw [get_eq, h_lines, lastValue_append h_behind] at h_get
      obtain ⟨p1, raw1, p2, rfl, h_p2⟩ := exists_last h_get
      have h_p2' : ∀ l ∈ p2 ++ .entry k old raw :: post, l.hasKey key = false := by
        intro l h_l
        obtain h_l | h_l := List.mem_append.mp h_l
        · exact h_p2 l h_l
        · exact h_behind l h_l
      rw [List.append_assoc, List.cons_append] at h_lines
      rw [lines_set_split h_lines h_p2' h_v]
      rw [noneOpen_append, noneOpen_cons] at h_pre
      refine ⟨p1 ++ .entry key value none :: p2, raw, post, by simp, ?_, h_rest, h_post⟩
      rw [noneOpen_append, noneOpen_cons]
      exact ⟨h_pre.1, rfl, h_pre.2.2⟩

end Set

section Assign

variable {doc : PropertiesDocument} {es : List (Text × Text)}

/-- The loop of `assign` over the entries of the record. -/
def setAll (doc : PropertiesDocument) (es : List (Text × Text)) : PropertiesDocument :=
  es.foldl (fun d e => d.set e.1 e.2) doc

theorem setAll_cons (doc : PropertiesDocument) (e : Text × Text) (es : List (Text × Text)) :
    setAll doc (e :: es) = setAll (doc.set e.1 e.2) es := rfl

theorem eol_setAll (doc : PropertiesDocument) (es : List (Text × Text)) :
    (setAll doc es).eol = doc.eol := by
  induction es generalizing doc with
  | nil => rfl
  | cons e es ih => rw [setAll_cons, ih, eol_set]

/-- Setting one key leaves the entries of the others to be compared as before. -/
theorem get_set_of_mem {e e' : Text × Text} (h : ((e :: es).map Prod.fst).Nodup) (h_mem : e' ∈ es) :
    (doc.set e.1 e.2).get e'.1 = doc.get e'.1 := by
  have h_ne : e'.1 ≠ e.1 := fun h_eq =>
    (List.nodup_cons.mp h).1 (h_eq ▸ List.mem_map_of_mem h_mem)
  rw [get_set, if_neg h_ne]

theorem fine_setAll (h_nodup : (es.map Prod.fst).Nodup)
    (h : ∀ line ∈ doc.lines, Fine doc.eol line)
    (h_keys : ∀ e ∈ es, doc.get e.1 = some e.2 ∨ losesStart e.1 = false) :
    ∀ line ∈ (setAll doc es).lines, Fine doc.eol line := by
  induction es generalizing doc with
  | nil => exact h
  | cons e es ih =>
    have h_eol : (doc.set e.1 e.2).eol = doc.eol := eol_set
    rw [setAll_cons, ← h_eol]
    apply ih (List.nodup_cons.mp h_nodup).2
    · rw [eol_set]
      exact fine_set h (h_keys e List.mem_cons_self)
    · intro e' h_e'
      rw [get_set_of_mem h_nodup h_e']
      exact h_keys e' (List.mem_cons_of_mem _ h_e')

theorem noneOpen_setAll (h : NoneOpen doc.lines) : NoneOpen (setAll doc es).lines := by
  induction es generalizing doc with
  | nil => exact h
  | cons e es ih => exact ih (noneOpen_set h)

theorem lastOnly_setAll (h_nodup : (es.map Prod.fst).Nodup) (h : LastOnly doc.lines)
    (h_has : ∀ e ∈ es, doc.has e.1 = true) : LastOnly (setAll doc es).lines := by
  induction es generalizing doc with
  | nil => exact h
  | cons e es ih =>
    apply ih (List.nodup_cons.mp h_nodup).2
    · exact lastOnly_set h (.inl (h_has e List.mem_cons_self))
    · intro e' h_e'
      rw [PropertiesDocument.has, get_set_of_mem h_nodup h_e']
      exact h_has e' (List.mem_cons_of_mem _ h_e')

/-- Once the open entry has its turn no line is open. -/
theorem noneOpen_setAll_key {k old new : Text} (h_nodup : (es.map Prod.fst).Nodup)
    (h : KeyOnly k old doc.lines) (h_mem : (k, new) ∈ es) (h_ne : old ≠ new) :
    NoneOpen (setAll doc es).lines := by
  induction es generalizing doc with
  | nil => cases h_mem
  | cons e es ih =>
    obtain ⟨h_head, h_tail⟩ := List.nodup_cons.mp h_nodup
    rw [setAll_cons]
    by_cases h_k : e.1 = k
    · have h_e : e = (k, new) := by
        obtain h_e | h_es := List.mem_cons.mp h_mem
        · exact h_e.symm
        · exact absurd (h_k ▸ List.mem_map_of_mem (f := Prod.fst) h_es) h_head
      rw [h_e]
      exact noneOpen_setAll (noneOpen_set_key h h_ne)
    · obtain h_e | h_es := List.mem_cons.mp h_mem
      · exact absurd (by rw [← h_e]) h_k
      · exact ih h_tail (keyOnly_set h h_k) h_es

end Assign

/-! ## Every run -/

/-- A document whose text is read back. -/
structure Sound (doc : PropertiesDocument) : Prop where
  eol : IsEol doc.eol
  fine : ∀ line ∈ doc.lines, Fine doc.eol line
  lastOnly : LastOnly doc.lines

theorem sound_parse (text : Text) : Sound (parse text) where
  eol := isEol_parse text
  fine := (tidy_parse text).fine
  lastOnly := (tidy_parse text).inner

/-- What is left of a document by `assign` before it sets the keys of the record. -/
theorem pruned_lines (doc : PropertiesDocument) (record : JsObject Text Text) :
    ∃ q, (doc.pruned record).lines = doc.lines.filter q ∧ (doc.pruned record).eol = doc.eol := by
  obtain ⟨h_lines, h_eol⟩ := lines_deleteAll doc
    (doc.keys.filter fun key => (record.get key).isNone)
  exact ⟨_, h_lines, h_eol⟩

/-- No line is open at the end of an `assign` that does not keep the open one. -/
theorem noneOpen_assign {doc : PropertiesDocument} {record : JsObject Text Text}
    (h : LastOnly doc.lines) (h_keeps : doc.keepsLast record = false) :
    NoneOpen (doc.assign record).lines := by
  obtain ⟨q, h_lines, -⟩ := pruned_lines doc record
  show NoneOpen (setAll (doc.pruned record) record.entries).lines
  by_cases h_end : doc.endsOpen = true
  · rcases List.eq_nil_or_concat doc.lines with h_nil | ⟨init, last, h_last⟩
    · simp [PropertiesDocument.endsOpen, h_nil] at h_end
    · rw [List.concat_eq_append] at h_last
      rw [PropertiesDocument.endsOpen, h_last, List.getLast?_concat] at h_end
      rw [PropertiesDocument.keepsLast, h_last, List.getLast?_concat] at h_keeps
      rw [h_last, lastOnly_concat] at h
      rw [h_last, List.filter_append] at h_lines
      have h_init : NoneOpen (init.filter q) := fun l h_l => h l (List.mem_of_mem_filter h_l)
      by_cases h_q : q last = true
      · rw [show [last].filter q = [last] by simp [h_q]] at h_lines
        cases last with
        | text raw => cases h_end
        | entry k v raw =>
          have h_ne : record.get k ≠ some v := by simpa using h_keeps
          cases h_k : record.get k with
          | none =>
            -- An entry whose key the record has not is gone.
            have h_gone := get_pruned doc record k
            rw [h_k, get_eq, h_lines, lastValue_concat] at h_gone
            simp [Line.hasKey, Line.value?] at h_gone
          | some w =>
            have h_vw : v ≠ w := fun h_eq => h_ne (h_eq ▸ h_k)
            have h_mem := (JsObject.get_eq_some_iff record k w).mp h_k
            apply noneOpen_setAll_key record.nodup _ h_mem h_vw
            exact ⟨init.filter q, raw, [], h_lines, h_init, by simp [NoneOpen], by simp⟩
      · rw [show [last].filter q = [] by simp [h_q], List.append_nil] at h_lines
        apply noneOpen_setAll
        rwa [h_lines]
  · apply noneOpen_setAll
    rw [h_lines]
    have h_all := noneOpen_of_endsOpen h ((Bool.not_eq_true _).mp h_end)
    exact fun l h_l => h_all l (List.mem_of_mem_filter h_l)

theorem sound_assign {doc : PropertiesDocument} {record : JsObject Text Text} (h : Sound doc)
    (h_safe : doc.safe (.assign record) = true) : Sound (doc.assign record) := by
  simp only [PropertiesDocument.safe, Bool.and_eq_true, List.all_eq_true, Bool.or_eq_true,
    beq_iff_eq, Bool.not_eq_true'] at h_safe
  obtain ⟨h_keys, h_last⟩ := h_safe
  obtain ⟨q, h_lines, h_eol⟩ := pruned_lines doc record
  have h_get : ∀ e ∈ record.entries, (doc.pruned record).get e.1 = doc.get e.1 := by
    intro e h_e
    rw [get_pruned, (JsObject.get_eq_some_iff record e.1 e.2).mpr h_e]
    rfl
  have h_eol' : (doc.assign record).eol = doc.eol := (eol_setAll _ _).trans h_eol
  constructor
  · rw [h_eol']
    exact h.eol
  · show ∀ line ∈ (setAll (doc.pruned record) record.entries).lines, _
    rw [h_eol', ← h_eol]
    apply fine_setAll record.nodup
    · intro line h_line
      rw [h_lines] at h_line
      rw [h_eol]
      exact h.fine line (List.mem_of_mem_filter h_line)
    · intro e h_e
      rw [h_get e h_e]
      exact h_keys e h_e
  · obtain (h_end | h_keeps) | h_has := h_last
    · apply NoneOpen.lastOnly
      apply noneOpen_setAll
      rw [h_lines]
      exact fun l h_l => noneOpen_of_endsOpen h.lastOnly h_end l (List.mem_of_mem_filter h_l)
    · exact (noneOpen_assign h.lastOnly h_keeps).lastOnly
    · apply lastOnly_setAll record.nodup
      · rw [h_lines]
        exact lastOnly_filter h.lastOnly q
      · intro e h_e
        rw [PropertiesDocument.has, h_get e h_e]
        exact h_has e h_e

theorem sound_apply {doc : PropertiesDocument} {edit : Edit} (h : Sound doc)
    (h_safe : doc.safe edit = true) : Sound (doc.apply edit) := by
  cases edit with
  | set key value =>
    simp only [PropertiesDocument.safe, Bool.or_eq_true, Bool.and_eq_true, beq_iff_eq,
      Bool.not_eq_true'] at h_safe
    constructor
    · rw [PropertiesDocument.apply, eol_set]
      exact h.eol
    · rw [PropertiesDocument.apply, eol_set]
      exact fine_set h.fine (h_safe.imp_right And.left)
    · apply lastOnly_set h.lastOnly
      obtain h_same | ⟨-, h_last⟩ := h_safe
      · exact .inl (by rw [PropertiesDocument.has, h_same]; rfl)
      · exact h_last
  | delete key =>
    exact ⟨h.eol, fun l h_l => h.fine l (List.mem_of_mem_filter h_l), lastOnly_filter h.lastOnly _⟩
  | assign record => exact sound_assign h h_safe

/-- A document that is edited call by call. -/
def machine : Machine PropertiesDocument Edit where
  init doc := ∃ text, doc = parse text
  step doc edit := some (doc.apply edit)

theorem sound_of_reachableUnder {doc : PropertiesDocument}
    (h : machine.ReachableUnder (fun d e => d.safe e = true) doc) : Sound doc := by
  refine h.invariant ?_ ?_
  · rintro _ ⟨text, rfl⟩
    exact sound_parse text
  · intro d e d' h_d h_safe h_step
    cases h_step
    exact sound_apply h_d h_safe

theorem reread {doc : PropertiesDocument} (h : Sound doc) :
    (parse doc.toText).toRecord = doc.toRecord := by
  rw [toRecord_eq, toRecord_eq, contents_parse_toText h.eol ⟨h.fine, h.lastOnly⟩]

/-- An edit leaves the keys it does not name as they are. -/
theorem get_apply {doc : PropertiesDocument} {edit : Edit} {key : Text} (h : ¬ edit.names key) :
    (doc.apply edit).get key = doc.get key := by
  cases edit with
  | set k value => exact get_set.trans (if_neg h)
  | delete k => exact get_delete.trans (if_neg h)
  | assign record => exact absurd trivial h

/-- After any safe edits of any text the document is read back as it is, and no further one
    changes what is read back for a key it does not name. -/
theorem rereads_of_reachableUnder {doc : PropertiesDocument}
    (h : machine.ReachableUnder (fun d e => d.safe e = true) doc) :
    (parse doc.toText).toRecord = doc.toRecord ∧
      ∀ edit, doc.safe edit = true → ∀ key, ¬ edit.names key →
        (parse (doc.apply edit).toText).get key = (parse doc.toText).get key := by
  have h_doc := sound_of_reachableUnder h
  refine ⟨reread h_doc, fun edit h_safe key h_key => ?_⟩
  rw [← get_toRecord, ← get_toRecord, reread (sound_apply h_doc h_safe), reread h_doc,
    get_toRecord, get_toRecord, get_apply h_key]

/-- The units of a text of plain characters. -/
def unitsOf (s : String) : Text := s.toList.map fun c => UInt16.ofNat c.toNat

/-- A value with a leading space, a line end and a backslash at its end, and an entry that the
    file leaves open. -/
theorem rereads_motd :
    (parse (((parse (unitsOf "motd=A\nodd=1\\")).set (unitsOf "motd")
        (unitsOf " two\nlines\\")).toText)).toRecord =
      ((parse (unitsOf "motd=A\nodd=1\\")).set (unitsOf "motd")
        (unitsOf " two\nlines\\")).toRecord := by
  refine (rereads_of_reachableUnder ?_).1
  exact machine.reachableUnder_of_runUnder
    [.set (unitsOf "motd") (unitsOf " two\nlines\\")]
    (.init ⟨unitsOf "motd=A\nodd=1\\", rfl⟩) (by decide +kernel)

/-- An entry behind an open one becomes part of its value, and a key that begins with a
    no-break space loses it. -/
theorem unsafe_edits_lose_values :
    (((parse (unitsOf "a=1\\")).set (unitsOf "b") (unitsOf "2")).get (unitsOf "a") =
        some (unitsOf "1") ∧
      (parse ((parse (unitsOf "a=1\\")).set (unitsOf "b") (unitsOf "2")).toText).get
        (unitsOf "a") = some (unitsOf "1b=2") ∧
      (parse ((parse (unitsOf "a=1\\")).set (unitsOf "b") (unitsOf "2")).toText).get
        (unitsOf "b") = none) ∧
    ((parse []).set [0xA0, 0x6B] (unitsOf "v")).get [0xA0, 0x6B] = some (unitsOf "v") ∧
      (parse ((parse []).set [0xA0, 0x6B] (unitsOf "v")).toText).get [0xA0, 0x6B] = none := by
  decide +kernel

end Kubek.Properties
