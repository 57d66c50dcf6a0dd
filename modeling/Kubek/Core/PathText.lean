/-
  Kubek.Core.PathText

  The texts that `normalize` and `join` of Node's `path` make: normalising a text does not
  change where it leads, and a name joined to a path of names stands behind it with a slash.
-/

import Kubek.Core.Paths
import Kubek.Lib.LinkTree

namespace Kubek.Paths

open FileTree (Path IsName)

/-- `path.join` of two texts. -/
def join (a b : String) : String :=
  if a = "" then (if b = "" then "." else normalize b)
  else if b = "" then normalize a
  else normalize (a ++ "/" ++ b)

/-! ## Segments of a text -/

section Segments

theorem split_slash (a b : String) :
    JsText.split '/' (a ++ "/" ++ b) = JsText.split '/' a ++ JsText.split '/' b := by
  rw [JsText.split, JsText.split, JsText.split, ← List.map_append, ← JsText.splitChars_append]
  simp

theorem split_empty : JsText.split '/' "" = [""] := rfl

/-- A text of segments, joined with slashes. -/
structure Segments (segs : List String) : Prop where
  nonempty : ∀ s ∈ segs, s ≠ ""
  noDot : ∀ s ∈ segs, s ≠ "."
  noSlash : ∀ s ∈ segs, '/' ∉ s.toList

variable {segs : List String} {name : String}

theorem Segments.nil : Segments [] :=
  ⟨fun _ h => (by cases h), fun _ h => (by cases h), fun _ h => (by cases h)⟩

theorem Segments.tail {s : String} (h : Segments (s :: segs)) : Segments segs :=
  ⟨fun x h_x => h.nonempty x (List.mem_cons_of_mem s h_x),
    fun x h_x => h.noDot x (List.mem_cons_of_mem s h_x),
    fun x h_x => h.noSlash x (List.mem_cons_of_mem s h_x)⟩

theorem split_segments (h : Segments segs) (h_ne : segs ≠ []) :
    JsText.split '/' ("/".intercalate segs) = segs :=
  JsText.split_intercalate h_ne rfl h.noSlash

theorem intercalate_concat (h_ne : segs ≠ []) (name : String) :
    "/".intercalate (segs ++ [name]) = "/".intercalate segs ++ "/" ++ name := by
  induction segs with
  | nil => exact absurd rfl h_ne
  | cons s segs ih =>
    cases segs with
    | nil => simp
    | cons next segs =>
      have h_rest := ih (List.cons_ne_nil _ _)
      rw [List.cons_append, List.cons_append, String.intercalate_cons_cons, ← List.cons_append,
        h_rest, String.intercalate_cons_cons]
      simp only [String.append_assoc]

/-- The text of segments begins and ends with no slash. -/
theorem ends_intercalate (h : Segments segs) (h_ne : segs ≠ []) :
    ("/".intercalate segs).toList ≠ [] ∧ ("/".intercalate segs).toList.head? ≠ some '/' ∧
      ("/".intercalate segs).toList.getLast? ≠ some '/' := by
  induction segs with
  | nil => exact absurd rfl h_ne
  | cons s segs ih =>
    have h_s : s.toList ≠ [] := fun h_nil =>
      h.nonempty s List.mem_cons_self (String.toList_eq_nil_iff.mp h_nil)
    have h_slash := h.noSlash s List.mem_cons_self
    obtain ⟨c, cs, h_cs⟩ := List.exists_cons_of_ne_nil h_s
    cases segs with
    | nil =>
      rw [String.intercalate_singleton]
      refine ⟨h_s, fun h_head => ?_, fun h_last => h_slash (List.mem_of_getLast? h_last)⟩
      exact h_slash (List.mem_of_head? h_head)
    | cons next segs =>
      obtain ⟨h_rest, -, h_last⟩ := ih h.tail (List.cons_ne_nil _ _)
      rw [String.intercalate_cons_cons, String.toList_append, String.toList_append]
      refine ⟨by simp [h_cs], fun h_head => ?_, ?_⟩
      · rw [h_cs] at h_head h_slash
        simp only [List.cons_append, List.head?_cons, Option.some.injEq] at h_head
        exact h_slash (h_head ▸ List.mem_cons_self)
      · rwa [List.getLast?_append_of_ne_nil _ h_rest]

end Segments

/-! ## Normalising -/

section Normalize

variable {segs start done : List String} {text : String} {absolute : Bool}

/-- What `normalize` has gathered: real names, behind leading `..` where the text is relative. -/
structure Gathered (absolute : Bool) (done : List String) : Prop where
  segments : Segments done
  climbs : absolute = true → ".." ∉ done

theorem Gathered.nil (absolute : Bool) : Gathered absolute [] :=
  ⟨.nil, fun _ h => by cases h⟩

theorem resolveFrom_concat (start : Path) (segs : List String) (s : String) :
    resolveFrom start (segs ++ [s]) = resolveOne (resolveFrom start segs) s := by
  rw [resolveFrom, List.foldl_append]
  rfl

theorem Segments.concat {s : String} (h : Segments done) (h_empty : s ≠ "") (h_dot : s ≠ ".")
    (h_slash : '/' ∉ s.toList) : Segments (done ++ [s]) := by
  refine ⟨fun x h_x => ?_, fun x h_x => ?_, fun x h_x => ?_⟩
  all_goals
    obtain h_x | h_x := List.mem_append.mp h_x
  · exact h.nonempty x h_x
  · rwa [List.mem_singleton.mp h_x]
  · exact h.noDot x h_x
  · rwa [List.mem_singleton.mp h_x]
  · exact h.noSlash x h_x
  · rwa [List.mem_singleton.mp h_x]

theorem Segments.dropLast (h : Segments done) : Segments done.dropLast :=
  ⟨fun x h_x => h.nonempty x (List.dropLast_subset done h_x),
    fun x h_x => h.noDot x (List.dropLast_subset done h_x),
    fun x h_x => h.noSlash x (List.dropLast_subset done h_x)⟩

/-- One segment: what is gathered still leads where the segments so far lead. -/
theorem normalizeOne_spec {s : String} (h : Gathered absolute done) (h_slash : '/' ∉ s.toList)
    (h_start : absolute = true → start = []) :
    Gathered absolute (normalizeOne absolute done s) ∧
      resolveFrom start (normalizeOne absolute done s) = resolveOne (resolveFrom start done) s := by
  by_cases h_skip : s = "" ∨ s = "."
  · rw [normalizeOne, if_pos h_skip, resolveOne, if_pos h_skip]
    exact ⟨h, rfl⟩
  · have h_skip' := not_or.mp h_skip
    by_cases h_dots : s = ".."
    · rw [normalizeOne, if_neg h_skip, if_pos h_dots, resolveOne, if_neg h_skip, if_pos h_dots]
      by_cases h_up : done ≠ [] ∧ done.getLast? ≠ some ".."
      · rw [if_pos h_up]
        refine ⟨⟨h.segments.dropLast, fun h_abs h_mem =>
          h.climbs h_abs (List.dropLast_subset done h_mem)⟩, ?_⟩
        -- the last name gathered is gone again
        obtain ⟨init, last, rfl⟩ := (List.eq_nil_or_concat' done).resolve_left h_up.1
        have h_up : last ≠ ".." := fun h_eq => h_up.2 (by rw [List.getLast?_concat, h_eq])
        have h_mem : last ∈ init ++ [last] := List.mem_append_right _ (List.mem_singleton_self _)
        have h_last : ¬ (last = "" ∨ last = ".") :=
          not_or.mpr ⟨h.segments.nonempty _ h_mem, h.segments.noDot _ h_mem⟩
        rw [List.dropLast_concat, resolveFrom_concat, resolveOne, if_neg h_last, if_neg h_up,
          List.dropLast_concat]
      · rw [if_neg h_up]
        split
        · rename_i h_abs
          have h_done : done = [] := by
            by_contra h_ne
            obtain ⟨init, last, rfl⟩ := (List.eq_nil_or_concat' done).resolve_left h_ne
            refine h_up ⟨h_ne, fun h_last => h.climbs h_abs ?_⟩
            exact List.mem_of_getLast? h_last
          rw [h_start h_abs, h_done]
          exact ⟨.nil absolute, rfl⟩
        · rename_i h_abs
          refine ⟨⟨h.segments.concat (h_dots ▸ h_skip'.1) (h_dots ▸ h_skip'.2) (h_dots ▸ h_slash),
            fun h_is => absurd h_is h_abs⟩, ?_⟩
          rw [h_dots, resolveFrom_concat]
          rfl
    · rw [normalizeOne, if_neg h_skip, if_neg h_dots, resolveFrom_concat]
      refine ⟨⟨h.segments.concat h_skip'.1 h_skip'.2 h_slash, fun h_abs h_mem => ?_⟩, rfl⟩
      obtain h_mem | h_mem := List.mem_append.mp h_mem
      · exact h.climbs h_abs h_mem
      · exact h_dots (List.mem_singleton.mp h_mem).symm

theorem gathered_foldl (h : Gathered absolute done) (h_segs : ∀ s ∈ segs, '/' ∉ s.toList)
    (h_start : absolute = true → start = []) :
    Gathered absolute (segs.foldl (normalizeOne absolute) done) ∧
      resolveFrom start (segs.foldl (normalizeOne absolute) done) =
        segs.foldl resolveOne (resolveFrom start done) := by
  induction segs generalizing done with
  | nil => exact ⟨h, rfl⟩
  | cons s segs ih =>
    obtain ⟨h_one, h_eq⟩ := normalizeOne_spec h (h_segs s List.mem_cons_self) h_start
    have h_rest := ih h_one fun x h_x => h_segs x (List.mem_cons_of_mem s h_x)
    rw [h_eq] at h_rest
    exact h_rest

/-- The segments that `normalize` joins. -/
def normalSegments (text : String) : List String :=
  (JsText.split '/' text).foldl (normalizeOne (isAbsolute text)) []

theorem gathered_normalSegments (text : String) :
    Gathered (isAbsolute text) (normalSegments text) :=
  (gathered_foldl (.nil _) (fun _ h_s => JsText.not_mem_of_mem_split h_s)
    fun _ => (rfl : ([] : Path) = [])).1

theorem resolveFrom_normalSegments (h_start : isAbsolute text = true → start = []) :
    resolveFrom start (normalSegments text) = resolveFrom start (JsText.split '/' text) :=
  (gathered_foldl (.nil _) (fun _ h_s => JsText.not_mem_of_mem_split h_s) h_start).2
theorem normalize_eq (text : String) : normalize text =
    if normalSegments text = [] then
      (if isAbsolute text then "/" else if text.toList.getLast? == some '/' then "./" else ".")
    else (if isAbsolute text then "/" else "") ++ "/".intercalate (normalSegments text) ++
      (if text.toList.getLast? == some '/' then "/" else "") := by
  by_cases h : normalSegments text = []
  · rw [if_pos h, normalize]
    have h_body : "/".intercalate (normalSegments text) = "" := by rw [h, String.intercalate_nil]
    exact if_pos h_body
  · rw [if_neg h, normalize]
    have h_body : "/".intercalate (normalSegments text) ≠ "" := fun h_eq =>
      (ends_intercalate (gathered_normalSegments text).segments h).1
        (String.toList_eq_nil_iff.mpr h_eq)
    exact if_neg h_body

theorem resolveFrom_empty_cons (start : Path) (segs : List String) :
    resolveFrom start ("" :: segs) = resolveFrom start segs := rfl

theorem resolveFrom_concat_empty (start : Path) (segs : List String) :
    resolveFrom start (segs ++ [""]) = resolveFrom start segs := by
  rw [resolveFrom_concat]
  rfl

/-- A leading or trailing slash leads nowhere. -/
theorem resolveFrom_slashes (start : Path) (body : String) (lead trail : Bool) :
    resolveFrom start (JsText.split '/'
      ((if lead then "/" else "") ++ body ++ (if trail then "/" else ""))) =
        resolveFrom start (JsText.split '/' body) := by
  have h_trail : ∀ s : String, resolveFrom start (JsText.split '/' (s ++ "/")) =
      resolveFrom start (JsText.split '/' s) := fun s => by
    have h_split := split_slash s ""
    rw [String.append_empty] at h_split
    rw [h_split, split_empty, resolveFrom_concat_empty]
  have h_lead : ∀ s : String, resolveFrom start (JsText.split '/' ("/" ++ s)) =
      resolveFrom start (JsText.split '/' s) := fun s => by
    have h_split := split_slash "" s
    rw [String.empty_append] at h_split
    rw [h_split, split_empty]
    rfl
  cases lead with
  | false => cases trail with
    | false => simp
    | true => simpa using h_trail body
  | true => cases trail with
    | false => simpa using h_lead body
    | true =>
      have h_both := h_trail ("/" ++ body)
      rw [h_lead] at h_both
      simpa using h_both

theorem isAbsolute_normalize (text : String) : isAbsolute (normalize text) = isAbsolute text := by
  rw [normalize_eq]
  split
  · cases h_abs : isAbsolute text with
    | true =>
      rw [if_pos rfl]
      rfl
    | false => cases text.toList.getLast? == some '/' <;> rfl
  · rename_i h_ne
    cases h_abs : isAbsolute text with
    | true =>
      rw [isAbsolute, String.toList_append, String.toList_append]
      rfl
    | false =>
      obtain ⟨h_nil, h_head, -⟩ := ends_intercalate (gathered_normalSegments text).segments h_ne
      obtain ⟨c, cs, h_cs⟩ := List.exists_cons_of_ne_nil h_nil
      rw [isAbsolute, String.toList_append, String.toList_append, h_cs]
      rw [h_cs] at h_head
      simpa using h_head

/-- Normalising a text does not change where it leads. -/
theorem resolveFrom_normalize (h_start : isAbsolute text = true → start = []) :
    resolveFrom start (JsText.split '/' (normalize text)) =
      resolveFrom start (JsText.split '/' text) := by
  rw [← resolveFrom_normalSegments h_start, normalize_eq]
  split
  · rename_i h_nil
    rw [h_nil]
    cases isAbsolute text with
    | true =>
      rw [if_pos rfl]
      rfl
    | false => cases text.toList.getLast? == some '/' <;> rfl
  · rename_i h_ne
    rw [resolveFrom_slashes, split_segments (gathered_normalSegments text).segments h_ne]

theorem getSafeServerPath_normalize (cwd : Path) (serverId text : String) :
    getSafeServerPath cwd serverId (normalize text) = getSafeServerPath cwd serverId text := by
  have h_under : ∀ base, resolveUnder base (normalize text) = resolveUnder base text := fun base => by
    rw [resolveUnder, resolveUnder, isAbsolute_normalize]
    split
    · rw [resolveFrom_normalize fun _ => rfl]
    · rename_i h_abs
      rw [resolveFrom_normalize fun h_is => absurd h_is h_abs]
  simp only [getSafeServerPath, h_under]

end Normalize

/-! ## Joining names -/

section Join

variable {segs : List String} {name : String}

theorem foldl_normalizeOne_names {done : List String} (absolute : Bool)
    (h : ∀ s ∈ segs, s ≠ "" ∧ s ≠ "." ∧ s ≠ "..") :
    segs.foldl (normalizeOne absolute) done = done ++ segs := by
  induction segs generalizing done with
  | nil => simp
  | cons s segs ih =>
    obtain ⟨h_empty, h_dot, h_dots⟩ := h s List.mem_cons_self
    have h_one : normalizeOne absolute done s = done ++ [s] := by
      rw [normalizeOne, if_neg (not_or.mpr ⟨h_empty, h_dot⟩), if_neg h_dots]
    rw [List.foldl_cons, h_one, ih fun x h_x => h x (List.mem_cons_of_mem s h_x), List.append_assoc,
      List.singleton_append]

/-- Segments with `..` at most in front are normal. -/
theorem normalize_segments (h : Segments segs) (h_ne : segs ≠ []) (h_tail : ".." ∉ segs.tail) :
    normalize ("/".intercalate segs) = "/".intercalate segs := by
  obtain ⟨-, h_head, h_last⟩ := ends_intercalate h h_ne
  have h_abs : isAbsolute ("/".intercalate segs) = false := by
    rw [isAbsolute]
    simpa using h_head
  have h_segs : normalSegments ("/".intercalate segs) = segs := by
    rw [normalSegments, h_abs, split_segments h h_ne]
    cases segs with
    | nil => rfl
    | cons s segs =>
      have h_first : normalizeOne false [] s = [s] := by
        rw [normalizeOne, if_neg (not_or.mpr ⟨h.nonempty s List.mem_cons_self,
          h.noDot s List.mem_cons_self⟩)]
        split <;> rfl
      rw [List.foldl_cons, h_first, foldl_normalizeOne_names false fun x h_x => ⟨h.tail.nonempty x h_x,
        h.tail.noDot x h_x, fun h_dots => h_tail (h_dots ▸ h_x)⟩]
      rfl
  rw [normalize_eq, h_segs, if_neg h_ne, h_abs, beq_eq_false_iff_ne.mpr h_last]
  simp

theorem join_segments (h : Segments segs) (h_ne : segs ≠ []) (h_tail : ".." ∉ segs.tail)
    (h_name : IsName name) :
    join ("/".intercalate segs) name = "/".intercalate (segs ++ [name]) := by
  have h_text : "/".intercalate segs ≠ "" := fun h_eq =>
    (ends_intercalate h h_ne).1 (String.toList_eq_nil_iff.mpr h_eq)
  rw [join, if_neg h_text, if_neg h_name.nonempty, ← intercalate_concat h_ne]
  refine normalize_segments (h.concat h_name.nonempty h_name.notDot h_name.noSlash)
    (List.append_ne_nil_of_left_ne_nil h_ne _) fun h_mem => ?_
  rw [List.tail_append_of_ne_nil h_ne] at h_mem
  obtain h_mem | h_mem := List.mem_append.mp h_mem
  · exact h_tail h_mem
  · exact h_name.notDots (List.mem_singleton.mp h_mem).symm

theorem segments_of_name (h : IsName name) : Segments [name] := by
  refine ⟨fun x h_x => ?_, fun x h_x => ?_, fun x h_x => ?_⟩
  all_goals rw [List.mem_singleton.mp h_x]
  · exact h.nonempty
  · exact h.notDot
  · exact h.noSlash

theorem join_dot (h : IsName name) : join "." name = name := by
  obtain ⟨-, h_head, h_last⟩ := ends_intercalate (segments_of_name h) (List.cons_ne_nil _ _)
  rw [String.intercalate_singleton] at h_head h_last
  have h_split : JsText.split '/' ("." ++ "/" ++ name) = [".", name] := by
    have h_name := split_segments (segments_of_name h) (List.cons_ne_nil _ _)
    rw [String.intercalate_singleton] at h_name
    rw [split_slash, h_name]
    rfl
  have h_abs : isAbsolute ("." ++ "/" ++ name) = false := by simp [isAbsolute]
  have h_trail : (("." ++ "/" ++ name).toList.getLast? == some '/') = false := by
    have h_nil : name.toList ≠ [] := fun h_nil => h.nonempty (String.toList_eq_nil_iff.mp h_nil)
    rw [String.toList_append, List.getLast?_append_of_ne_nil _ h_nil]
    exact beq_eq_false_iff_ne.mpr h_last
  have h_segs : normalSegments ("." ++ "/" ++ name) = [name] := by
    rw [normalSegments, h_abs, h_split]
    have h_names : ∀ x ∈ [name], x ≠ "" ∧ x ≠ "." ∧ x ≠ ".." := fun x h_x => by
      rw [List.mem_singleton.mp h_x]
      exact ⟨h.nonempty, h.notDot, h.notDots⟩
    exact foldl_normalizeOne_names false h_names
  rw [join, if_neg (by decide), if_neg h.nonempty, normalize_eq, h_segs, h_abs, h_trail,
    if_neg (List.cons_ne_nil _ _), String.intercalate_singleton]
  simp

end Join

end Kubek.Paths
