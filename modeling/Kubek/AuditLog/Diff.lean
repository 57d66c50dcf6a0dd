/-
  Kubek.AuditLog.Diff

  `diffChanges` of audit-diff.ts: the changed leaves of two snapshots, for the audit log.

  The walk goes down while both sides are objects or missing. Where one side is an object
  and the other a text, a number or an array it reports the two as they are, and with them
  what lies below. `stops` lists the places the walk reports at; they are the places `Stop`
  describes, no two of them lie above each other, and the change at a place shows the
  values both snapshots have there.
-/

import Kubek.Lib.JsObject
import Kubek.Lib.JsonValue

namespace Kubek.AuditLog

open JsJson JsMap

variable {N : Type}

/-! ## audit-diff.ts -/

/-- `AuditChange`: a change without its values, or `from` and `to`. -/
inductive AuditChange (N : Type) where
  | secret (field : Text)
  | valued (field : Text) (before after : JsonValue N) (label : Option Text)

structure DiffOptions where
  /-- Dotted paths whose values never reach the log. -/
  secrets : List Text := []
  /-- Dotted paths left out, a parent path skips the whole branch. -/
  ignore : List Text := []
  /-- Display names for dotted paths. -/
  labels : List (Text × Text) := []

/-- An object; `undefined` is none. -/
def isPlain : Option (JsonValue N) → Bool
  | some (.obj _) => true
  | _ => false

/-- `value == null`. -/
def isNullish : Option (JsonValue N) → Bool
  | none => true
  | some .null => true
  | _ => false

/-- A blank text and a missing value read the same. -/
def normalize : Option (JsonValue N) → JsonValue N
  | none => .null
  | some (.str []) => .null
  | some v => v

/-- Equal texts of the normalised values. -/
def same (js : Numbers) (a b : Option (JsonValue js.Num)) : Bool :=
  stringify js (normalize a) = stringify js (normalize b)

/-- The fields of an object; a missing value has none. -/
def fields : Option (JsonValue N) → List (Text × JsonValue N)
  | some (.obj fields) => fields
  | _ => []

/-- `value[key]` of an object or of a missing value. -/
def get (v : Option (JsonValue N)) (key : Text) : Option (JsonValue N) := fieldOf (fields v) key

def joinPath (path key : Text) : Text := if path = [] then key else path ++ '.' :: key

/-- Both sides are objects or missing, and one is an object. -/
def isBranch (before after : Option (JsonValue N)) : Bool :=
  (isPlain before || isPlain after) && (isPlain before || isNullish before) &&
    (isPlain after || isNullish after)

namespace DiffOptions

/-- `path && ignore.includes(path)`. -/
def ignores (options : DiffOptions) (path : Text) : Bool :=
  decide (path ≠ []) && options.ignore.contains path

def hides (options : DiffOptions) (path : Text) : Bool := options.secrets.contains path

/-- The display name of a path; a blank one is left out. -/
def label (options : DiffOptions) (path : Text) : Option Text :=
  (options.labels.lookup path).filter (· ≠ [])

end DiffOptions

variable {js : Numbers}

/-- `walk`, for at most `fuel` levels. -/
def walk (js : Numbers) (options : DiffOptions) :
    Nat → Option (JsonValue js.Num) → Option (JsonValue js.Num) → Text → List (AuditChange js.Num)
  | 0, _, _, _ => []
  | fuel + 1, before, after, path =>
      if options.ignores path then []
      else if options.hides path then
        if same js before after then [] else [.secret path]
      else if isBranch before after then
        (unique ((fields before).map Prod.fst ++ (fields after).map Prod.fst)).flatMap fun key =>
          walk js options fuel (get before key) (get after key) (joinPath path key)
      else if same js before after then []
      else [.valued path (normalize before) (normalize after) (options.label path)]

mutual

/-- How deep objects lie in each other. -/
def depth : JsonValue N → Nat
  | .obj fields => depthFields fields + 1
  | _ => 0

def depthFields : List (Text × JsonValue N) → Nat
  | [] => 0
  | (_, v) :: fields => max (depth v) (depthFields fields)

end

/-- The depth of a side; a missing one has none. -/
def levels (v : Option (JsonValue N)) : Nat := (v.map depth).getD 0

/-- `diffChanges`. Below the deepest object both sides are missing. -/
def diffChanges (js : Numbers) (options : DiffOptions) (before after : Option (JsonValue js.Num)) :
    List (AuditChange js.Num) :=
  walk js options (levels before + levels after + 1) before after []

/-! ## Places -/

/-- The path of the place that `keys` lead to from `path`. -/
def pathBelow (path : Text) (keys : List Text) : Text := keys.foldl joinPath path

/-- What an object holds at a place. -/
def valueAt (v : Option (JsonValue N)) (keys : List Text) : Option (JsonValue N) :=
  keys.foldl get v

/-- `value[key]` of an object or an array. -/
def part : Option (JsonValue N) → Text → Option (JsonValue N)
  | some (.obj entries), key => fieldOf entries key
  | some (.arr items), key =>
      (items.zipIdx.find? fun item => Nat.toDigits 10 item.2 = key).map Prod.fst
  | _, _ => none

/-- What a value holds at a place, in its objects and its arrays. -/
def partAt (v : Option (JsonValue N)) (keys : List Text) : Option (JsonValue N) :=
  keys.foldl part v

/-- A text, a number, a truth value or an array: arrays are compared whole. -/
def isLeaf : Option (JsonValue N) → Bool
  | none => false
  | some .null => false
  | some (.obj _) => false
  | some _ => true

@[simp] theorem pathBelow_nil (path : Text) : pathBelow path [] = path := rfl

@[simp] theorem pathBelow_cons (path key : Text) (keys : List Text) :
    pathBelow path (key :: keys) = pathBelow (joinPath path key) keys := rfl

theorem pathBelow_append (path : Text) (keys more : List Text) :
    pathBelow path (keys ++ more) = pathBelow (pathBelow path keys) more :=
  List.foldl_append

@[simp] theorem valueAt_nil (v : Option (JsonValue N)) : valueAt v [] = v := rfl

@[simp] theorem valueAt_cons (v : Option (JsonValue N)) (key : Text) (keys : List Text) :
    valueAt v (key :: keys) = valueAt (get v key) keys := rfl

@[simp] theorem partAt_nil (v : Option (JsonValue N)) : partAt v [] = v := rfl

@[simp] theorem partAt_cons (v : Option (JsonValue N)) (key : Text) (keys : List Text) :
    partAt v (key :: keys) = partAt (part v key) keys := rfl

theorem partAt_append (v : Option (JsonValue N)) (keys more : List Text) :
    partAt v (keys ++ more) = partAt (partAt v keys) more :=
  List.foldl_append

/-- An empty way from a missing value leads nowhere. -/
@[simp] theorem partAt_none (keys : List Text) :
    partAt (none : Option (JsonValue N)) keys = none := by
  induction keys with
  | nil => rfl
  | cons key keys ih => exact ih

@[simp] theorem valueAt_none (keys : List Text) :
    valueAt (none : Option (JsonValue N)) keys = none := by
  induction keys with
  | nil => rfl
  | cons key keys ih => exact ih

/-! ### Shapes -/

theorem same_refl (v : Option (JsonValue js.Num)) : same js v v = true := by
  simp [same]

theorem exists_obj_of_isPlain {v : Option (JsonValue N)} (h : isPlain v = true) :
    ∃ fields, v = some (.obj fields) := by
  match v, h with
  | some (.obj fields), _ => exact ⟨fields, rfl⟩

theorem get_eq_none {v : Option (JsonValue N)} (h : isPlain v = false) (key : Text) :
    get v key = none := by
  match v, h with
  | none, _ => rfl
  | some .null, _ => rfl
  | some (.bool _), _ => rfl
  | some (.num _), _ => rfl
  | some (.str _), _ => rfl
  | some (.arr _), _ => rfl

/-- On objects and missing values the walk reads what a path reads. -/
theorem part_eq_get {v : Option (JsonValue N)} (h : isPlain v = true ∨ isNullish v = true)
    (key : Text) : part v key = get v key := by
  match v, h with
  | none, _ => rfl
  | some .null, _ => rfl
  | some (.obj fields), _ => rfl
  | some (.bool _), h => simp [isPlain, isNullish] at h
  | some (.num _), h => simp [isPlain, isNullish] at h
  | some (.str _), h => simp [isPlain, isNullish] at h
  | some (.arr _), h => simp [isPlain, isNullish] at h

/-- A side of a branch. -/
theorem sides_of_isBranch {before after : Option (JsonValue N)} (h : isBranch before after = true) :
    (isPlain before = true ∨ isNullish before = true) ∧
      (isPlain after = true ∨ isNullish after = true) := by
  simp only [isBranch, Bool.and_eq_true, Bool.or_eq_true] at h
  exact ⟨h.1.2, h.2⟩

/-- A place with an object on one side is a branch, or the other side is a leaf. -/
theorem isBranch_of_sides {before after : Option (JsonValue N)}
    (h_plain : isPlain before = true ∨ isPlain after = true)
    (h_before : isPlain before = true ∨ isNullish before = true)
    (h_after : isPlain after = true ∨ isNullish after = true) :
    isBranch before after = true := by
  simp only [isBranch, Bool.and_eq_true, Bool.or_eq_true]
  exact ⟨⟨h_plain, h_before⟩, h_after⟩

theorem sides_eq_not_isLeaf (v : Option (JsonValue N)) :
    (isPlain v || isNullish v) = !isLeaf v := by
  match v with
  | none => rfl
  | some .null => rfl
  | some (.obj fields) => rfl
  | some (.bool _) => rfl
  | some (.num _) => rfl
  | some (.str _) => rfl
  | some (.arr _) => rfl

/-- A branch holds no leaf itself. -/
theorem isLeaf_eq_false_of_isBranch {before after : Option (JsonValue N)}
    (h : isBranch before after = true) : isLeaf before = false ∧ isLeaf after = false := by
  simp only [isBranch, sides_eq_not_isLeaf, Bool.and_eq_true, Bool.not_eq_true'] at h
  exact ⟨h.1.2, h.2⟩

/-- An object's text starts with a brace, and only an object's does. -/
theorem head_stringify_normalize (v : Option (JsonValue js.Num)) :
    (stringify js (normalize v)).head? = some '\x7b' ↔ isPlain v = true := by
  match v with
  | none => simp [normalize, stringify, isPlain]
  | some .null => simp [normalize, stringify, isPlain]
  | some (.bool true) => simp [normalize, stringify, isPlain]
  | some (.bool false) => simp [normalize, stringify, isPlain]
  | some (.str []) => simp [normalize, stringify, isPlain]
  | some (.str (c :: cs)) => simp [normalize, stringify, quote, isPlain]
  | some (.arr items) => simp [normalize, stringify, isPlain]
  | some (.obj fields) => simp [normalize, stringify, isPlain]
  | some (.num n) =>
    rw [normalize, stringify]
    · by_cases h_finite : js.isFinite n = true
      · rw [if_pos h_finite]
        constructor
        · intro h_head
          have h_numeral := js.text_numeral n '\x7b' (List.mem_of_mem_head? h_head)
          exact absurd h_numeral (by decide)
        · intro h_plain
          cases h_plain
      · rw [if_neg h_finite]
        simp [isPlain]
    · simp

/-- Sides with the same text are both objects or neither is. -/
theorem isPlain_eq_of_same {before after : Option (JsonValue js.Num)}
    (h : same js before after = true) : isPlain before = isPlain after := by
  have h_text : stringify js (normalize before) = stringify js (normalize after) := by
    simpa [same] using h
  rw [Bool.eq_iff_iff, ← head_stringify_normalize before, ← head_stringify_normalize after, h_text]

/-! ## The places of the walk -/

/-- The walk goes on below this place. -/
def Walked (options : DiffOptions) (before after : Option (JsonValue N)) (path : Text) : Prop :=
  options.ignores path = false ∧ options.hides path = false ∧ isBranch before after = true

/-- The walk reports at the place that `keys` lead to. -/
def Stop (options : DiffOptions) :
    Option (JsonValue js.Num) → Option (JsonValue js.Num) → Text → List Text → Prop
  | before, after, path, [] =>
      options.ignores path = false ∧ same js before after = false ∧
        (options.hides path = true ∨ isBranch before after = false)
  | before, after, path, key :: keys =>
      Walked options before after path ∧
        Stop options (get before key) (get after key) (joinPath path key) keys

/-- The places `walk` reports at, in its order. -/
def stops (js : Numbers) (options : DiffOptions) :
    Nat → Option (JsonValue js.Num) → Option (JsonValue js.Num) → Text → List (List Text)
  | 0, _, _, _ => []
  | fuel + 1, before, after, path =>
      if options.ignores path then []
      else if options.hides path then
        if same js before after then [] else [[]]
      else if isBranch before after then
        (unique ((fields before).map Prod.fst ++ (fields after).map Prod.fst)).flatMap fun key =>
          (stops js options fuel (get before key) (get after key) (joinPath path key)).map (key :: ·)
      else if same js before after then []
      else [[]]

/-- The change at the place that `keys` lead to. -/
def changeAt (options : DiffOptions) (before after : Option (JsonValue N)) (path : Text)
    (keys : List Text) : AuditChange N :=
  if options.hides (pathBelow path keys) then .secret (pathBelow path keys)
  else
    .valued (pathBelow path keys) (normalize (valueAt before keys)) (normalize (valueAt after keys))
      (options.label (pathBelow path keys))

theorem changeAt_cons (options : DiffOptions) (before after : Option (JsonValue N)) (path key : Text)
    (keys : List Text) :
    changeAt options before after path (key :: keys)
      = changeAt options (get before key) (get after key) (joinPath path key) keys := rfl

/-- The walk reports the change of each of its places. -/
theorem walk_eq_map_stops (options : DiffOptions) (fuel : Nat)
    (before after : Option (JsonValue js.Num)) (path : Text) :
    walk js options fuel before after path
      = (stops js options fuel before after path).map (changeAt options before after path) := by
  induction fuel generalizing before after path with
  | zero => rfl
  | succ fuel ih =>
    rw [walk, stops]
    split
    · rfl
    split
    · rename_i h_hides
      split
      · rfl
      · simp [changeAt, h_hides]
    rename_i h_hides
    split
    · rw [List.map_flatMap]
      refine List.flatMap_congr fun key _ => ?_
      rw [ih, List.map_map]
      rfl
    split
    · rfl
    · simp [changeAt, h_hides]

theorem stop_of_mem_stops {options : DiffOptions} {fuel : Nat}
    {before after : Option (JsonValue js.Num)} {path : Text} {keys : List Text}
    (h : keys ∈ stops js options fuel before after path) : Stop options before after path keys := by
  induction fuel generalizing before after path keys with
  | zero => cases h
  | succ fuel ih =>
    rw [stops] at h
    split at h
    · cases h
    rename_i h_ignores
    have h_kept : options.ignores path = false := by simpa using h_ignores
    split at h
    · rename_i h_hides
      split at h
      · cases h
      · rename_i h_same
        rw [List.mem_singleton.mp h]
        exact ⟨h_kept, by simpa using h_same, Or.inl h_hides⟩
    rename_i h_hides
    split at h
    · rename_i h_branch
      obtain ⟨key, -, h_mem⟩ := List.mem_flatMap.mp h
      obtain ⟨rest, h_rest, rfl⟩ := List.mem_map.mp h_mem
      exact ⟨⟨h_kept, by simpa using h_hides, h_branch⟩, ih h_rest⟩
    rename_i h_branch
    split at h
    · cases h
    · rename_i h_same
      rw [List.mem_singleton.mp h]
      exact ⟨h_kept, by simpa using h_same, Or.inr (by simpa using h_branch)⟩

theorem nodup_stops (options : DiffOptions) (fuel : Nat) (before after : Option (JsonValue js.Num))
    (path : Text) : (stops js options fuel before after path).Nodup := by
  induction fuel generalizing before after path with
  | zero => exact List.nodup_nil
  | succ fuel ih =>
    rw [stops]
    split
    · exact List.nodup_nil
    split
    · split
      · exact List.nodup_nil
      · exact List.nodup_singleton _
    split
    · rw [List.nodup_flatMap]
      refine ⟨fun key _ => ?_, ?_⟩
      · exact (ih _ _ _).map fun _ _ h => (List.cons.inj h).2
      · refine (nodup_unique _).imp fun {key key'} h_ne => ?_
        -- Places below two keys differ in their first key.
        intro keys h_keys h_keys'
        obtain ⟨rest, -, rfl⟩ := List.mem_map.mp h_keys
        obtain ⟨rest', -, h_eq⟩ := List.mem_map.mp h_keys'
        exact h_ne (List.cons.inj h_eq).1.symm
    split
    · exact List.nodup_nil
    · exact List.nodup_singleton _

/-! ### Depth -/

theorem depth_le_of_mem {entries : List (Text × JsonValue N)} {key : Text} {v : JsonValue N}
    (h : (key, v) ∈ entries) : depth v ≤ depthFields entries := by
  induction entries with
  | nil => cases h
  | cons entry entries ih =>
    obtain ⟨name, w⟩ := entry
    rw [depthFields]
    rcases List.mem_cons.mp h with h_eq | h_mem
    · cases h_eq
      exact Nat.le_max_left _ _
    · exact Nat.le_trans (ih h_mem) (Nat.le_max_right _ _)

theorem levels_get_le (v : Option (JsonValue N)) (key : Text) : levels (get v key) ≤ levels v := by
  cases h_plain : isPlain v with
  | false =>
    rw [get_eq_none h_plain]
    exact Nat.zero_le _
  | true =>
    obtain ⟨entries, rfl⟩ := exists_obj_of_isPlain h_plain
    cases h_get : get (some (.obj entries)) key with
    | none => exact Nat.zero_le _
    | some w =>
      have h_le : depth w ≤ depthFields entries := depth_le_of_mem (mem_of_fieldOf h_get)
      have h_levels : levels (some (.obj entries)) = depthFields entries + 1 := rfl
      have h_some : levels (some w) = depth w := rfl
      omega

theorem levels_get_lt {v : Option (JsonValue N)} {key : Text} (h : get v key ≠ none) :
    levels (get v key) < levels v := by
  cases h_plain : isPlain v with
  | false => exact absurd (get_eq_none h_plain key) h
  | true =>
    obtain ⟨entries, rfl⟩ := exists_obj_of_isPlain h_plain
    obtain ⟨w, h_get⟩ := Option.ne_none_iff_exists'.mp h
    have h_le : depth w ≤ depthFields entries := depth_le_of_mem (mem_of_fieldOf h_get)
    have h_levels : levels (some (.obj entries)) = depthFields entries + 1 := rfl
    have h_some : levels (some w) = depth w := rfl
    rw [h_get]
    omega

theorem mem_fields_of_get {v : Option (JsonValue N)} {key : Text} (h : get v key ≠ none) :
    key ∈ (fields v).map Prod.fst := by
  obtain ⟨w, h_get⟩ := Option.ne_none_iff_exists'.mp h
  exact List.mem_map.mpr ⟨_, mem_of_fieldOf h_get, rfl⟩

/-- There is nothing to report where both sides are missing. -/
theorem not_stop_none (options : DiffOptions) (path : Text) (keys : List Text) :
    ¬ Stop options (none : Option (JsonValue js.Num)) none path keys := by
  cases keys with
  | nil =>
    rintro ⟨-, h_same, -⟩
    rw [same_refl] at h_same
    cases h_same
  | cons key keys =>
    rintro ⟨⟨-, -, h_branch⟩, -⟩
    cases h_branch

/-- The walk reaches every place where it reports. -/
theorem mem_stops_of_stop {options : DiffOptions} {fuel : Nat}
    {before after : Option (JsonValue js.Num)} {path : Text} {keys : List Text}
    (h_fuel : levels before + levels after < fuel) (h : Stop options before after path keys) :
    keys ∈ stops js options fuel before after path := by
  induction fuel generalizing before after path keys with
  | zero => exact absurd h_fuel (Nat.not_lt_zero _)
  | succ fuel ih =>
    rw [stops]
    cases keys with
    | nil =>
      obtain ⟨h_kept, h_same, h_end⟩ := h
      rw [if_neg (by simp [h_kept])]
      split
      · simp [h_same]
      · rename_i h_hides
        have h_branch : isBranch before after = false := h_end.resolve_left h_hides
        simp [h_branch, h_same]
    | cons key keys =>
      obtain ⟨⟨h_kept, h_open, h_branch⟩, h_below⟩ := h
      rw [if_neg (by simp [h_kept]), if_neg (by simp [h_open]), if_pos h_branch]
      have h_le_before := levels_get_le before key
      have h_le_after := levels_get_le after key
      -- The key is a field of a side, and that side loses a level below it.
      have h_field : get before key ≠ none ∨ get after key ≠ none := by
        by_contra h_none
        obtain ⟨h_none_before, h_none_after⟩ := not_or.mp h_none
        rw [not_not.mp h_none_before, not_not.mp h_none_after] at h_below
        exact not_stop_none options _ keys h_below
      have h_less : levels (get before key) + levels (get after key) < fuel := by
        rcases h_field with h_some | h_some
        · have h_lt := levels_get_lt h_some
          omega
        · have h_lt := levels_get_lt h_some
          omega
      have h_key : key ∈ unique ((fields before).map Prod.fst ++ (fields after).map Prod.fst) := by
        rw [mem_unique, List.mem_append]
        exact h_field.imp mem_fields_of_get mem_fields_of_get
      exact List.mem_flatMap.mpr ⟨key, h_key, List.mem_map.mpr ⟨keys, ih h_less h_below, rfl⟩⟩

/-- The places of `diffChanges`. -/
def places (js : Numbers) (options : DiffOptions) (before after : Option (JsonValue js.Num)) :
    List (List Text) :=
  stops js options (levels before + levels after + 1) before after []

theorem mem_places_iff {options : DiffOptions} {before after : Option (JsonValue js.Num)}
    {keys : List Text} : keys ∈ places js options before after ↔ Stop options before after [] keys :=
  ⟨stop_of_mem_stops, mem_stops_of_stop (Nat.lt_succ_self _)⟩

theorem diffChanges_eq (options : DiffOptions) (before after : Option (JsonValue js.Num)) :
    diffChanges js options before after
      = (places js options before after).map (changeAt options before after []) :=
  walk_eq_map_stops options _ before after []

/-! ### What a place tells -/

/-- No place of the walk lies above another one. -/
theorem Stop.eq_of_prefix {options : DiffOptions} {before after : Option (JsonValue js.Num)}
    {path : Text} {keys keys' : List Text} (h : Stop options before after path keys)
    (h' : Stop options before after path keys') (h_above : keys <+: keys') : keys = keys' := by
  induction keys generalizing before after path keys' with
  | nil =>
    cases keys' with
    | nil => rfl
    | cons key keys' =>
      obtain ⟨-, -, h_end⟩ := h
      obtain ⟨⟨-, h_open, h_branch⟩, -⟩ := h'
      rcases h_end with h_hides | h_not
      · rw [h_open] at h_hides
        cases h_hides
      · rw [h_branch] at h_not
        cases h_not
  | cons key keys ih =>
    obtain ⟨rest, rfl⟩ := h_above
    have h_eq : keys = keys ++ rest := ih h.2 h'.2 (List.prefix_append _ _)
    rw [List.cons_append, ← h_eq]

/-- Above a place and at it nothing is ignored. -/
theorem Stop.kept {options : DiffOptions} {before after : Option (JsonValue js.Num)}
    {path : Text} {keys : List Text} (h : Stop options before after path keys)
    {above : List Text} (h_above : above <+: keys) :
    options.ignores (pathBelow path above) = false := by
  induction above generalizing before after path keys with
  | nil =>
    cases keys with
    | nil => exact h.1
    | cons key keys => exact h.1.1
  | cons key above ih =>
    obtain ⟨rest, rfl⟩ := h_above
    exact ih h.2 (List.prefix_append _ _)

/-- Strictly above a place nothing is secret. -/
theorem Stop.open_above {options : DiffOptions} {before after : Option (JsonValue js.Num)}
    {path : Text} {keys : List Text} (h : Stop options before after path keys)
    {above : List Text} (h_above : above <+: keys) (h_ne : above ≠ keys) :
    options.hides (pathBelow path above) = false := by
  induction above generalizing before after path keys with
  | nil =>
    cases keys with
    | nil => exact absurd rfl h_ne
    | cons key keys => exact h.1.2.1
  | cons key above ih =>
    obtain ⟨rest, rfl⟩ := h_above
    exact ih h.2 (List.prefix_append _ _) fun h_eq => h_ne (congrArg (key :: ·) h_eq)

/-- At a place that is not secret the snapshots have no branch. -/
theorem Stop.not_branch {options : DiffOptions} {before after : Option (JsonValue js.Num)}
    {path : Text} {keys : List Text} (h : Stop options before after path keys)
    (h_open : options.hides (pathBelow path keys) = false) :
    same js (valueAt before keys) (valueAt after keys) = false ∧
      isBranch (valueAt before keys) (valueAt after keys) = false := by
  induction keys generalizing before after path with
  | nil =>
    obtain ⟨-, h_same, h_end⟩ := h
    exact ⟨h_same, h_end.resolve_left (by simpa using h_open)⟩
  | cons key keys ih => exact ih h.2 h_open

/-- Sides with the same text and no branch hold no fields. -/
theorem get_eq_none_of_same {before after : Option (JsonValue js.Num)}
    (h_same : same js before after = true) (h_branch : isBranch before after = false) (key : Text) :
    get before key = none ∧ get after key = none := by
  have h_eq : isPlain before = isPlain after := isPlain_eq_of_same h_same
  cases h_plain : isPlain before with
  | false => exact ⟨get_eq_none h_plain key, get_eq_none (h_eq ▸ h_plain) key⟩
  | true =>
    have h_after : isPlain after = true := h_eq ▸ h_plain
    rw [isBranch_of_sides (Or.inl h_plain) (Or.inl h_plain) (Or.inl h_after)] at h_branch
    cases h_branch

/-- A changed leaf that no listed path covers lies at a place of the walk or below one. -/
theorem exists_stop_above {options : DiffOptions} {before after : Option (JsonValue js.Num)}
    {path : Text} {keys : List Text}
    (h_leaf : isLeaf (valueAt before keys) = true ∨ isLeaf (valueAt after keys) = true)
    (h_outside : ∀ above, above <+: keys →
      options.ignores (pathBelow path above) = false ∧ options.hides (pathBelow path above) = false)
    (h_differ : same js (valueAt before keys) (valueAt after keys) = false) :
    ∃ place, place <+: keys ∧ Stop options before after path place := by
  obtain ⟨h_kept, h_open⟩ := h_outside [] List.nil_prefix
  induction keys generalizing before after path with
  | nil =>
    refine ⟨[], List.prefix_rfl, h_kept, h_differ, Or.inr ?_⟩
    cases h_branch : isBranch before after with
    | false => rfl
    | true =>
      obtain ⟨h_before, h_after⟩ := isLeaf_eq_false_of_isBranch h_branch
      rw [valueAt_nil, valueAt_nil, h_before, h_after] at h_leaf
      simp at h_leaf
  | cons key keys ih =>
    cases h_branch : isBranch before after with
    | true =>
      have h_below : ∀ above, above <+: keys →
          options.ignores (pathBelow (joinPath path key) above) = false ∧
            options.hides (pathBelow (joinPath path key) above) = false :=
        fun above h_above => h_outside (key :: above) (List.cons_prefix_cons.mpr ⟨rfl, h_above⟩)
      obtain ⟨h_kept', h_open'⟩ := h_below [] List.nil_prefix
      obtain ⟨place, h_place, h_stop⟩ := ih h_leaf h_below h_differ h_kept' h_open'
      exact ⟨key :: place, List.cons_prefix_cons.mpr ⟨rfl, h_place⟩, ⟨h_kept, h_open, h_branch⟩, h_stop⟩
    | false =>
      refine ⟨[], List.nil_prefix, h_kept, ?_, Or.inr h_branch⟩
      cases h_same : same js before after with
      | false => rfl
      | true =>
        obtain ⟨h_before, h_after⟩ := get_eq_none_of_same h_same h_branch key
        rw [valueAt_cons, valueAt_cons, h_before, h_after, valueAt_none] at h_leaf
        simp [isLeaf] at h_leaf

/-- Below its top a value and its normalised form hold the same. -/
theorem partAt_normalize (v : Option (JsonValue N)) {keys : List Text} (h : keys ≠ []) :
    partAt (some (normalize v)) keys = partAt v keys := by
  cases keys with
  | nil => exact absurd rfl h
  | cons key keys =>
    have h_part : part (some (normalize v)) key = part v key := by
      match v with
      | none => rfl
      | some .null => rfl
      | some (.obj fields) => rfl
      | some (.bool _) => rfl
      | some (.num _) => rfl
      | some (.str []) => rfl
      | some (.str (c :: cs)) => rfl
      | some (.arr _) => rfl
    rw [partAt_cons, partAt_cons, h_part]

/-- A leaf apart, what holds something below itself is an object. -/
theorem isPlain_of_partAt {v : Option (JsonValue N)} {keys : List Text} (h_leaf : isLeaf v = false)
    (h_keys : keys ≠ []) (h : partAt v keys ≠ none) : isPlain v = true := by
  cases keys with
  | nil => exact absurd rfl h_keys
  | cons key keys =>
    match v, h_leaf with
    | some (.obj fields), _ => rfl
    | none, _ => exact absurd (partAt_none keys) h
    | some .null, _ => exact absurd (partAt_none keys) h

/-- What the walk reads at a place lies there. -/
theorem partAt_eq_valueAt {v : Option (JsonValue N)} {keys : List Text}
    (h : valueAt v keys ≠ none) : partAt v keys = valueAt v keys := by
  induction keys generalizing v with
  | nil => rfl
  | cons key keys ih =>
    cases h_plain : isPlain v with
    | true =>
      rw [partAt_cons, valueAt_cons, part_eq_get (Or.inl h_plain)]
      exact ih h
    | false =>
      rw [valueAt_cons, get_eq_none h_plain, valueAt_none] at h
      exact absurd rfl h

theorem partAt_append_ne_none {v : Option (JsonValue N)} {place keys : List Text}
    (h : partAt (valueAt v place) keys ≠ none) : partAt v (place ++ keys) ≠ none := by
  have h_some : valueAt v place ≠ none := by
    intro h_none
    rw [h_none, partAt_none] at h
    exact h rfl
  rw [partAt_append, partAt_eq_valueAt h_some]
  exact h

/-! ## What the log shows -/

/-- What the log promises of two snapshots. -/
structure Guaranteed (js : Numbers) (options : DiffOptions)
    (before after : Option (JsonValue js.Num)) : Prop where
  /-- No value that a change shows holds anything at a secret path. -/
  hidden : ∀ field old new label,
    AuditChange.valued field old new label ∈ diffChanges js options before after →
      ∀ keys, options.hides (pathBelow field keys) = true →
        partAt (some old) keys = none ∧ partAt (some new) keys = none
  /-- The changes stand at distinct places, none at an ignored path or below one; and a leaf
  that differs, with no listed path above it or at it, lies at one of these places or below
  one, and only one, which shows the normalised values there. -/
  covered : ∃ places : List (List Text),
    diffChanges js options before after = places.map (changeAt options before after []) ∧
    places.Nodup ∧
    (∀ place ∈ places, ∀ above, above <+: place → options.ignores (pathBelow [] above) = false) ∧
    ∀ keys, (isLeaf (valueAt before keys) = true ∨ isLeaf (valueAt after keys) = true) →
      (∀ above, above <+: keys →
        options.ignores (pathBelow [] above) = false ∧ options.hides (pathBelow [] above) = false) →
      same js (valueAt before keys) (valueAt after keys) = false →
      ∃ place ∈ places, place <+: keys ∧
        changeAt options before after [] place
          = .valued (pathBelow [] place) (normalize (valueAt before place))
              (normalize (valueAt after place)) (options.label (pathBelow [] place)) ∧
        ∀ other ∈ places, other <+: keys → other = place

/-- Above a secret value, down to the first listed path, both snapshots have objects or
nothing, or they have the same. -/
def Sheltered (js : Numbers) (options : DiffOptions) (before after : Option (JsonValue js.Num))
    (path : Text) : Prop :=
  ∀ keys, options.hides (pathBelow path keys) = true →
    (partAt before keys ≠ none ∨ partAt after keys ≠ none) →
    ∀ above, above <+: keys → above ≠ keys →
      (∀ listed, listed <+: above →
        options.ignores (pathBelow path listed) = false ∧
          options.hides (pathBelow path listed) = false) →
      isLeaf (valueAt before above) = false ∧ isLeaf (valueAt after above) = false ∨
        same js (valueAt before above) (valueAt after above) = true

/-- A place that shows its values shows none of a secret path. -/
def Hidden (options : DiffOptions) (before after : Option (JsonValue js.Num)) (path : Text) : Prop :=
  ∀ place, Stop options before after path place → options.hides (pathBelow path place) = false →
    ∀ keys, options.hides (pathBelow path (place ++ keys)) = true →
      partAt (some (normalize (valueAt before place))) keys = none ∧
        partAt (some (normalize (valueAt after place))) keys = none

theorem hidden_of_sheltered {options : DiffOptions} {before after : Option (JsonValue js.Num)}
    (h : Sheltered js options before after []) : Hidden options before after [] := by
  intro place h_stop h_open keys h_hides
  obtain ⟨h_differ, h_branch⟩ := h_stop.not_branch h_open
  have h_keys : keys ≠ [] := by
    rintro rfl
    rw [List.append_nil, h_open] at h_hides
    cases h_hides
  rw [partAt_normalize _ h_keys, partAt_normalize _ h_keys]
  by_contra h_some
  have h_value : partAt (valueAt before place) keys ≠ none ∨ partAt (valueAt after place) keys ≠ none :=
    not_and_or.mp h_some
  have h_listed : ∀ listed, listed <+: place →
      options.ignores (pathBelow [] listed) = false ∧ options.hides (pathBelow [] listed) = false := by
    intro listed h_above
    refine ⟨h_stop.kept h_above, ?_⟩
    by_cases h_eq : listed = place
    · rw [h_eq]
      exact h_open
    · exact h_stop.open_above h_above h_eq
  have h_ne : place ≠ place ++ keys := fun h_eq => h_keys (List.self_eq_append_right.mp h_eq)
  have h_present := h_value.imp partAt_append_ne_none partAt_append_ne_none
  rcases h _ h_hides h_present place (List.prefix_append _ _) h_ne h_listed with ⟨h_b, h_a⟩ | h_same
  · -- A side holds the secret, so it is an object, and the walk would go on.
    have h_plain := h_value.imp (isPlain_of_partAt h_b h_keys) (isPlain_of_partAt h_a h_keys)
    have h_side_before := sides_eq_not_isLeaf (valueAt before place)
    have h_side_after := sides_eq_not_isLeaf (valueAt after place)
    rw [h_b, Bool.not_false, Bool.or_eq_true] at h_side_before
    rw [h_a, Bool.not_false, Bool.or_eq_true] at h_side_after
    rw [isBranch_of_sides h_plain h_side_before h_side_after] at h_branch
    cases h_branch
  · rw [h_differ] at h_same
    cases h_same

theorem sheltered_of_hidden {options : DiffOptions} {before after : Option (JsonValue js.Num)}
    {path : Text} (h : Hidden options before after path) :
    Sheltered js options before after path := by
  intro keys h_hides h_present above h_above h_ne h_listed
  obtain ⟨h_kept, h_open⟩ := h_listed [] List.nil_prefix
  induction above generalizing before after path keys with
  | nil =>
    cases h_branch : isBranch before after with
    | true => exact Or.inl (isLeaf_eq_false_of_isBranch h_branch)
    | false =>
      right
      cases h_same : same js before after with
      | true => exact h_same
      | false =>
        obtain ⟨h_before, h_after⟩ := h [] ⟨h_kept, h_same, Or.inr h_branch⟩ h_open keys h_hides
        rw [partAt_normalize _ h_ne.symm] at h_before h_after
        exact absurd h_present (not_or.mpr ⟨not_not.mpr h_before, not_not.mpr h_after⟩)
  | cons key above ih =>
    obtain ⟨rest, rfl⟩ := h_above
    cases h_branch : isBranch before after with
    | true =>
      obtain ⟨h_before, h_after⟩ := sides_of_isBranch h_branch
      have h_below : Hidden options (get before key) (get after key) (joinPath path key) := by
        intro place h_stop h_shown more h_more
        exact h (key :: place) ⟨⟨h_kept, h_open, h_branch⟩, h_stop⟩ h_shown more h_more
      have h_listed' : ∀ listed, listed <+: above →
          options.ignores (pathBelow (joinPath path key) listed) = false ∧
            options.hides (pathBelow (joinPath path key) listed) = false :=
        fun listed h_pre => h_listed (key :: listed) (List.cons_prefix_cons.mpr ⟨rfl, h_pre⟩)
      obtain ⟨h_kept', h_open'⟩ := h_listed' [] List.nil_prefix
      rw [List.cons_append, partAt_cons, partAt_cons, part_eq_get h_before,
        part_eq_get h_after] at h_present
      exact ih h_below _ h_hides h_present (List.prefix_append _ _)
        (fun h_eq => h_ne (congrArg (key :: ·) h_eq)) h_listed' h_kept' h_open'
    | false =>
      left
      cases h_same : same js before after with
      | true =>
        obtain ⟨h_before, h_after⟩ := get_eq_none_of_same h_same h_branch key
        rw [valueAt_cons, valueAt_cons, h_before, h_after, valueAt_none]
        exact ⟨rfl, rfl⟩
      | false =>
        obtain ⟨h_before, h_after⟩ := h [] ⟨h_kept, h_same, Or.inr h_branch⟩ h_open _ h_hides
        rw [partAt_normalize _ (List.cons_ne_nil _ _)] at h_before h_after
        exact absurd h_present (not_or.mpr ⟨not_not.mpr h_before, not_not.mpr h_after⟩)

/-- The changes of `diffChanges` are those of the places the walk stops at. -/
theorem valued_mem_iff {options : DiffOptions} {before after : Option (JsonValue js.Num)}
    {field : Text} {old new : JsonValue js.Num} {label : Option Text} :
    AuditChange.valued field old new label ∈ diffChanges js options before after ↔
      ∃ place, Stop options before after [] place ∧ options.hides (pathBelow [] place) = false ∧
        field = pathBelow [] place ∧ old = normalize (valueAt before place) ∧
        new = normalize (valueAt after place) ∧ label = options.label (pathBelow [] place) := by
  rw [diffChanges_eq, List.mem_map]
  constructor
  · rintro ⟨place, h_mem, h_eq⟩
    rw [changeAt] at h_eq
    split at h_eq
    · cases h_eq
    · rename_i h_hides
      cases h_eq
      exact ⟨place, mem_places_iff.mp h_mem, by simpa using h_hides, rfl, rfl, rfl, rfl⟩
  · rintro ⟨place, h_stop, h_open, rfl, rfl, rfl, rfl⟩
    exact ⟨place, mem_places_iff.mpr h_stop, by rw [changeAt, if_neg (by simp [h_open])]⟩

/-- The changes stand at the places of the walk, and these cover every changed leaf. -/
theorem covered (options : DiffOptions) (before after : Option (JsonValue js.Num)) :
    ∃ places : List (List Text),
      diffChanges js options before after = places.map (changeAt options before after []) ∧
      places.Nodup ∧
      (∀ place ∈ places, ∀ above, above <+: place → options.ignores (pathBelow [] above) = false) ∧
      ∀ keys, (isLeaf (valueAt before keys) = true ∨ isLeaf (valueAt after keys) = true) →
        (∀ above, above <+: keys →
          options.ignores (pathBelow [] above) = false ∧ options.hides (pathBelow [] above) = false) →
        same js (valueAt before keys) (valueAt after keys) = false →
        ∃ place ∈ places, place <+: keys ∧
          changeAt options before after [] place
            = .valued (pathBelow [] place) (normalize (valueAt before place))
                (normalize (valueAt after place)) (options.label (pathBelow [] place)) ∧
          ∀ other ∈ places, other <+: keys → other = place := by
  refine ⟨places js options before after, diffChanges_eq options before after,
    nodup_stops options _ before after [], ?_, ?_⟩
  · intro place h_mem above h_above
    exact (mem_places_iff.mp h_mem).kept h_above
  · intro keys h_leaf h_outside h_differ
    obtain ⟨place, h_above, h_stop⟩ := exists_stop_above h_leaf h_outside h_differ
    obtain ⟨-, h_open⟩ := h_outside place h_above
    refine ⟨place, mem_places_iff.mpr h_stop, h_above, ?_, ?_⟩
    · rw [changeAt, if_neg (by simp [h_open])]
    · -- Two places above one leaf lie above each other.
      intro other h_other h_other_above
      have h_other_stop := mem_places_iff.mp h_other
      rcases List.prefix_or_prefix_of_prefix h_other_above h_above with h_pre | h_pre
      · exact h_other_stop.eq_of_prefix h_stop h_pre
      · exact (h_stop.eq_of_prefix h_other_stop h_pre).symm

end Kubek.AuditLog
