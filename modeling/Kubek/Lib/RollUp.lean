/-
  Kubek.Lib.RollUp

  A series of samples that is kept in rows of a fixed width, and rows that are rolled up into
  wider ones.

  `Covers` says of the rows of one width that they summarise the samples: each row those of
  its window, and each window before the mark has its row if there is a sample in it, as long
  as it is kept. Rolling up from the mark of the wider rows to a moment that the narrower
  ones have covered moves the mark there (`Covers.rollUp`). What a summary is stays open: all
  that counts is that one of parts is one of the whole.
-/

import Kubek.Lib.KeyedRows
import Mathlib.Data.List.Dedup
import Mathlib.Data.Set.Basic
import Mathlib.Data.Set.Insert

namespace RollUp

open KeyedRows

universe u v

variable {R : Type u} {S : Type v}

/-- The window of a moment. -/
def bucket (size ts : Nat) : Nat := ts / size * size

/-- The rows, with others in the place of those of the same key. -/
def replaceInto (key : R → Nat) (rows new : List R) : List R :=
  (rows.filter fun r => key r ∉ new.map key) ++ new

/-- One row for each window that rows fall into. -/
def grouped (key : R → Nat) (aggregate : Nat → List R → R) (size : Nat) (rows : List R) :
    List R :=
  (rows.map fun r => bucket size (key r)).dedup.map fun w =>
    aggregate w (rows.filter fun r => bucket size (key r) = w)

/-- Roll the rows of `source` between two moments up into `target`. -/
def rollUp (key : R → Nat) (aggregate : Nat → List R → R) (size fromTs toTs : Nat)
    (source target : List R) : List R :=
  replaceInto key target
    (grouped key aggregate size (source.filter fun r => fromTs ≤ key r ∧ key r < toTs))

theorem mem_replaceInto {key : R → Nat} {rows new : List R} {r : R} :
    r ∈ replaceInto key rows new ↔ (r ∈ rows ∧ key r ∉ new.map key) ∨ r ∈ new := by
  rw [replaceInto, List.mem_append, List.mem_filter, decide_eq_true_iff]

/-- Replacing the same rows once more changes nothing. -/
theorem mem_replaceInto_twice {key : R → Nat} {rows new : List R} {r : R} :
    r ∈ replaceInto key (replaceInto key rows new) new ↔ r ∈ replaceInto key rows new := by
  rw [mem_replaceInto, mem_replaceInto]
  constructor
  · rintro (⟨h_old, -⟩ | h_new)
    · exact h_old
    · exact .inr h_new
  · rintro (⟨h_old, h_key⟩ | h_new)
    · exact .inl ⟨.inl ⟨h_old, h_key⟩, h_key⟩
    · exact .inr h_new

/-! ## Windows -/

section Windows

variable {size ts w : Nat}

theorem dvd_bucket (size ts : Nat) : size ∣ bucket size ts := Nat.dvd_mul_left ..

theorem bucket_le (size ts : Nat) : bucket size ts ≤ ts := Nat.div_mul_le_self ..

theorem lt_bucket_add (h_size : 0 < size) : ts < bucket size ts + size := by
  have h_split := Nat.div_add_mod ts size
  have h_mod := Nat.mod_lt ts h_size
  rw [bucket, Nat.mul_comm]
  omega

/-- A multiple of the width that is no later is the start of this window or an earlier one. -/
theorem le_bucket (h_dvd : size ∣ w) (h_le : w ≤ ts) : w ≤ bucket size ts := by
  obtain ⟨k, rfl⟩ := h_dvd
  rcases Nat.eq_zero_or_pos size with rfl | h_size
  · rw [Nat.zero_mul]
    exact Nat.zero_le _
  · rw [bucket, Nat.mul_comm]
    exact Nat.mul_le_mul_right _ ((Nat.le_div_iff_mul_le h_size).mpr (Nat.mul_comm .. ▸ h_le))

/-- A window that starts before a multiple of the width ends by then. -/
theorem add_le_of_lt (h_dvd : size ∣ w) (h_ts : size ∣ ts) (h_lt : w < ts) : w + size ≤ ts := by
  obtain ⟨j, rfl⟩ := h_dvd
  obtain ⟨k, rfl⟩ := h_ts
  have h_jk : j < k := Nat.lt_of_mul_lt_mul_left h_lt
  calc size * j + size = size * (j + 1) := (Nat.mul_succ ..).symm
    _ ≤ size * k := Nat.mul_le_mul_left _ h_jk

theorem bucket_eq (h_dvd : size ∣ w) (h_le : w ≤ ts) (h_lt : ts < w + size) :
    bucket size ts = w := by
  refine Nat.le_antisymm (Nat.not_lt.mp fun h_later => ?_) (le_bucket h_dvd h_le)
  have h_end := add_le_of_lt h_dvd (dvd_bucket size ts) h_later
  have h_start := bucket_le size ts
  omega

end Windows

/-! ## Summaries -/

section Covers

variable (key : R → Nat) (time : S → Nat) (Sums : R → Set S → Prop)

/-- The samples of a window. -/
def window (samples : List S) (start size : Nat) : Set S :=
  {x | x ∈ samples ∧ start ≤ time x ∧ time x < start + size}

/-- The rows summarise the samples of the windows before the mark, those apart that are older
    than `kept`. -/
structure Covers (samples : List S) (now size mark kept : Nat) (rows : List R) : Prop where
  unique : UniqueCol key rows
  aligned : ∀ r ∈ rows, size ∣ key r ∧ key r + size ≤ mark
  sound : ∀ r ∈ rows, now ≤ key r + kept → Sums r (window time samples (key r) size)
  complete : ∀ x ∈ samples, time x < mark → now ≤ bucket size (time x) + kept →
    ∃ r ∈ rows, key r = bucket size (time x)

variable {key time Sums} {samples : List S} {now now' size mark mark' kept : Nat} {rows : List R}

theorem covers_nil (now size mark kept : Nat) :
    Covers key time Sums [] now size mark kept [] where
  unique := uniqueCol_nil _
  aligned := fun _ h => by cases h
  sound := fun _ h => by cases h
  complete := fun _ h => by cases h

/-- What a look-up of a covered window finds. -/
theorem Covers.lookup (h : Covers key time Sums samples now size mark kept rows) {w : Nat}
    (h_dvd : size ∣ w) (h_mark : w + size ≤ mark) (h_kept : now ≤ w + kept) :
    (∀ r, (rows.find? fun r => key r = w) = some r → Sums r (window time samples w size)) ∧
      ((rows.find? fun r => key r = w) = none → window time samples w size = ∅) := by
  constructor
  · intro r h_find
    have h_holds := List.find?_some h_find
    have h_key : key r = w := of_decide_eq_true h_holds
    rw [← h_key]
    exact h.sound r (List.mem_of_find?_eq_some h_find) (h_key ▸ h_kept)
  · intro h_none
    refine Set.eq_empty_iff_forall_notMem.mpr fun x ⟨h_x, h_start, h_end⟩ => ?_
    have h_bucket := bucket_eq h_dvd h_start h_end
    obtain ⟨r, h_r, h_key⟩ := h.complete x h_x (Nat.lt_of_lt_of_le h_end h_mark)
      (h_bucket ▸ h_kept)
    exact List.find?_eq_none.mp h_none r h_r (decide_eq_true (h_key.trans h_bucket))

/-- Time goes on. -/
theorem Covers.later (h : Covers key time Sums samples now size mark kept rows)
    (h_now : now ≤ now') : Covers key time Sums samples now' size mark kept rows where
  unique := h.unique
  aligned := h.aligned
  sound := fun r h_r h_kept => h.sound r h_r (h_now.trans h_kept)
  complete := fun x h_x h_mark h_kept => h.complete x h_x h_mark (h_now.trans h_kept)

/-- Rows that are no longer kept go. -/
theorem Covers.prune (h : Covers key time Sums samples now size mark kept rows)
    {keeps : R → Bool} (h_keeps : ∀ r, now ≤ key r + kept → keeps r = true) :
    Covers key time Sums samples now size mark kept (rows.filter keeps) where
  unique := h.unique.filter _
  aligned := fun r h_r => h.aligned r (List.mem_of_mem_filter h_r)
  sound := fun r h_r => h.sound r (List.mem_of_mem_filter h_r)
  complete := fun x h_x h_mark h_kept => by
    obtain ⟨r, h_r, h_key⟩ := h.complete x h_x h_mark h_kept
    exact ⟨r, List.mem_filter.mpr ⟨h_r, h_keeps r (h_key ▸ h_kept)⟩, h_key⟩

/-- The mark moves over moments without a sample. -/
theorem Covers.skip (h : Covers key time Sums samples now size mark kept rows)
    (h_le : mark ≤ mark') (h_none : ∀ x ∈ samples, time x < mark' → time x < mark) :
    Covers key time Sums samples now size mark' kept rows where
  unique := h.unique
  aligned := fun r h_r => ⟨(h.aligned r h_r).1, (h.aligned r h_r).2.trans h_le⟩
  sound := h.sound
  complete := fun x h_x h_mark => h.complete x h_x (h_none x h_x h_mark)

/-- A sample behind the mark is in none of the windows. -/
theorem Covers.sample (h : Covers key time Sums samples now size mark kept rows) {x : S}
    (h_x : mark ≤ time x) : Covers key time Sums (samples ++ [x]) now size mark kept rows where
  unique := h.unique
  aligned := h.aligned
  sound := fun r h_r h_kept => by
    have h_window : window time (samples ++ [x]) (key r) size = window time samples (key r) size := by
      ext y
      refine and_congr_left fun h_y => ?_
      rw [List.mem_append, List.mem_singleton]
      refine ⟨fun h_or => h_or.resolve_right ?_, .inl⟩
      rintro rfl
      have h_end := (h.aligned r h_r).2
      omega
    rw [h_window]
    exact h.sound r h_r h_kept
  complete := fun y h_y h_mark h_kept => by
    obtain h_old | h_new := List.mem_append.mp h_y
    · exact h.complete y h_old h_mark h_kept
    · rw [List.mem_singleton.mp h_new] at h_mark
      exact absurd h_mark (Nat.not_lt.mpr h_x)

/-- A sample gets a row of its own. -/
theorem Covers.record (h : Covers key time Sums samples now 1 mark kept rows) {x : S} {r : R}
    (h_key : key r = time x) (h_mark : time x < mark) (h_fresh : ∀ y ∈ samples, time y ≠ time x)
    (h_sums : Sums r {x}) :
    Covers key time Sums (samples ++ [x]) now 1 mark kept (replaceInto key rows [r]) := by
  have h_cases : ∀ {r'}, r' ∈ replaceInto key rows [r] ↔ r' ∈ rows ∧ key r' ≠ key r ∨ r' = r := by
    intro r'
    rw [mem_replaceInto, List.map_singleton, List.mem_singleton, List.mem_singleton]
  have h_one : ∀ n, bucket 1 n = n := fun n => by rw [bucket, Nat.div_one, Nat.mul_one]
  refine ⟨?_, fun r' h_r' => ?_, fun r' h_r' h_kept => ?_, fun y h_y h_before h_kept => ?_⟩
  · refine (h.unique.filter _).append fun r' h_r' h_eq => ?_
    have h_not := of_decide_eq_true (List.mem_filter.mp h_r').2
    exact h_not (List.mem_singleton.mpr h_eq)
  · obtain ⟨h_old, -⟩ | rfl := h_cases.mp h_r'
    · exact h.aligned r' h_old
    · exact ⟨Nat.one_dvd _, h_key.symm ▸ h_mark⟩
  · obtain ⟨h_old, h_ne⟩ | rfl := h_cases.mp h_r'
    · have h_window : window time (samples ++ [x]) (key r') 1 = window time samples (key r') 1 := by
        ext y
        refine and_congr_left fun h_y => ?_
        rw [List.mem_append, List.mem_singleton]
        refine ⟨fun h_or => h_or.resolve_right ?_, .inl⟩
        rintro rfl
        omega
      rw [h_window]
      exact h.sound r' h_old h_kept
    · have h_window : window time (samples ++ [x]) (key r') 1 = {x} := by
        ext y
        rw [Set.mem_singleton_iff]
        constructor
        · rintro ⟨h_y, h_start, h_end⟩
          obtain h_old | h_new := List.mem_append.mp h_y
          · exact absurd (by omega) (h_fresh y h_old)
          · exact List.mem_singleton.mp h_new
        · rintro rfl
          exact ⟨List.mem_append_right _ (List.mem_singleton_self _), by omega, by omega⟩
      rw [h_window]
      exact h_sums
  · rw [h_one] at h_kept ⊢
    obtain h_old | h_new := List.mem_append.mp h_y
    · obtain ⟨r', h_r', h_eq⟩ := h.complete y h_old h_before ((h_one _).symm ▸ h_kept)
      rw [h_one] at h_eq
      exact ⟨r', h_cases.mpr (.inl ⟨h_r', by rw [h_eq, h_key]; exact h_fresh y h_old⟩), h_eq⟩
    · rw [List.mem_singleton.mp h_new]
      exact ⟨r, h_cases.mpr (.inr rfl), h_key⟩

end Covers

/-! ## Rolling up -/

section RollUps

variable {key : R → Nat} {time : S → Nat} {Sums : R → Set S → Prop} {aggregate : Nat → List R → R}
  {samples : List S} {now a b markA markB keptA keptB toTs : Nat} {source target : List R}

theorem mem_grouped {rows : List R} {r : R} :
    r ∈ grouped key aggregate b rows ↔ ∃ w, (∃ x ∈ rows, bucket b (key x) = w) ∧
      r = aggregate w (rows.filter fun x => bucket b (key x) = w) := by
  rw [grouped, List.mem_map]
  constructor
  · rintro ⟨w, h_w, rfl⟩
    obtain ⟨x, h_x, h_eq⟩ := List.mem_map.mp (List.mem_dedup.mp h_w)
    exact ⟨w, ⟨x, h_x, h_eq⟩, rfl⟩
  · rintro ⟨w, ⟨x, h_x, h_eq⟩, rfl⟩
    exact ⟨w, List.mem_dedup.mpr (List.mem_map.mpr ⟨x, h_x, h_eq⟩), rfl⟩

/-- The windows of the groups, each once. -/
theorem map_key_grouped (h_key : ∀ w rows, key (aggregate w rows) = w) (rows : List R) :
    (grouped key aggregate b rows).map key = (rows.map fun r => bucket b (key r)).dedup := by
  rw [grouped, List.map_map]
  refine (List.map_congr_left fun w _ => h_key w _).trans ?_
  exact List.map_id _

/-- The rows between the mark and `toTs` are rolled up, and the mark moves there. -/
theorem Covers.rollUp (h_source : Covers key time Sums samples now a markA keptA source)
    (h_target : Covers key time Sums samples now b markB keptB target)
    (h_a : 0 < a) (h_b : 0 < b) (h_dvd : a ∣ b) (h_from : b ∣ markB) (h_to : b ∣ toTs)
    (h_le : markB ≤ toTs) (h_covered : toTs ≤ markA) (h_kept : now ≤ markB + keptA)
    (h_key : ∀ w rows, key (aggregate w rows) = w)
    (h_sums : ∀ w rows, rows ≠ [] → ∀ A : R → Set S, (∀ r ∈ rows, Sums r (A r)) →
      Sums (aggregate w rows) {x | ∃ r ∈ rows, x ∈ A r}) :
    Covers key time Sums samples now b toTs keptB
      (RollUp.rollUp key aggregate b markB toTs source target) := by
  let selected := source.filter fun r => markB ≤ key r ∧ key r < toTs
  have h_selected : ∀ r ∈ selected, r ∈ source ∧ markB ≤ key r ∧ key r < toTs := fun r h_r =>
    ⟨List.mem_of_mem_filter h_r, of_decide_eq_true (List.mem_filter.mp h_r).2⟩
  -- a new row starts between the marks
  have h_new : ∀ r ∈ grouped key aggregate b selected,
      b ∣ key r ∧ markB ≤ key r ∧ key r + b ≤ toTs := by
    intro r h_r
    obtain ⟨w, ⟨x, h_x, rfl⟩, rfl⟩ := mem_grouped.mp h_r
    obtain ⟨-, h_start, h_end⟩ := h_selected x h_x
    rw [h_key]
    refine ⟨dvd_bucket b _, le_bucket h_from h_start, ?_⟩
    exact add_le_of_lt (dvd_bucket b _) h_to (Nat.lt_of_le_of_lt (bucket_le b _) h_end)
  -- a sample between the marks is in a row of the source
  have h_row : ∀ x ∈ samples, markB ≤ time x → time x < toTs →
      ∃ r ∈ selected, x ∈ window time samples (key r) a ∧
        bucket b (key r) = bucket b (time x) := by
    intro x h_x h_start h_end
    have h_w := le_bucket h_from h_start
    have h_aligned := le_bucket (Nat.dvd_trans h_dvd (dvd_bucket b _)) (bucket_le b (time x))
    obtain ⟨r, h_r, h_eq⟩ := h_source.complete x h_x (Nat.lt_of_lt_of_le h_end h_covered)
      (by omega)
    have h_low := bucket_le a (time x)
    have h_high := @lt_bucket_add a (time x) h_a
    have h_wide := @lt_bucket_add b (time x) h_b
    refine ⟨r, List.mem_filter.mpr ⟨h_r, decide_eq_true ⟨by omega, by omega⟩⟩,
      ⟨h_x, by omega, by omega⟩, bucket_eq (dvd_bucket b _) (by omega) (by omega)⟩
  refine ⟨?_, fun r h_r => ?_, fun r h_r h_age => ?_, fun x h_x h_before h_age => ?_⟩
  · show ((target.filter _ ++ grouped key aggregate b selected).map key).Nodup
    rw [List.map_append]
    refine List.Nodup.append (h_target.unique.filter _) ?_ fun k h_old h_mem => ?_
    · rw [map_key_grouped h_key]
      exact List.nodup_dedup _
    · obtain ⟨r, h_r, rfl⟩ := List.mem_map.mp h_old
      exact of_decide_eq_true (List.mem_filter.mp h_r).2 h_mem
  · obtain ⟨h_old, -⟩ | h_r := mem_replaceInto.mp h_r
    · exact ⟨(h_target.aligned r h_old).1, (h_target.aligned r h_old).2.trans h_le⟩
    · exact ⟨(h_new r h_r).1, (h_new r h_r).2.2⟩
  · obtain ⟨h_old, -⟩ | h_r := mem_replaceInto.mp h_r
    · exact h_target.sound r h_old h_age
    obtain ⟨h_b_dvd, h_start, h_end⟩ := h_new r h_r
    obtain ⟨w, ⟨x₀, h_x₀, h_w₀⟩, rfl⟩ := mem_grouped.mp h_r
    rw [h_key] at h_b_dvd h_start h_end ⊢
    have h_parts : {x | ∃ r ∈ selected.filter fun r => bucket b (key r) = w,
        x ∈ window time samples (key r) a} = window time samples w b := by
      ext x
      constructor
      · rintro ⟨r, h_r, h_x, h_low, h_high⟩
        obtain ⟨h_r, h_w⟩ := List.mem_filter.mp h_r
        have h_w : bucket b (key r) = w := of_decide_eq_true h_w
        have h_first := bucket_le b (key r)
        have h_last := @lt_bucket_add b (key r) h_b
        have h_inside := add_le_of_lt (h_source.aligned r (h_selected r h_r).1).1
          (Nat.dvd_add (Nat.dvd_trans h_dvd h_b_dvd) h_dvd) (h_w ▸ h_last)
        exact ⟨h_x, by omega, by omega⟩
      · rintro ⟨h_x, h_low, h_high⟩
        obtain ⟨r, h_r, h_in, h_eq⟩ := h_row x h_x (by omega) (by omega)
        rw [bucket_eq h_b_dvd h_low h_high] at h_eq
        exact ⟨r, List.mem_filter.mpr ⟨h_r, decide_eq_true h_eq⟩, h_in⟩
    rw [← h_parts]
    refine h_sums w _ (List.ne_nil_of_mem (List.mem_filter.mpr ⟨h_x₀, decide_eq_true h_w₀⟩)) _
      fun r h_r => ?_
    obtain ⟨h_r, h_low, -⟩ := h_selected r (List.mem_of_mem_filter h_r)
    exact h_source.sound r h_r (by omega)
  · by_cases h_old : time x < markB
    · obtain ⟨r, h_r, h_eq⟩ := h_target.complete x h_x h_old h_age
      refine ⟨r, mem_replaceInto.mpr (.inl ⟨h_r, fun h_mem => ?_⟩), h_eq⟩
      obtain ⟨r', h_r', h_same⟩ := List.mem_map.mp h_mem
      have h_start := (h_new r' h_r').2.1
      have h_end := (h_target.aligned r h_r).2
      omega
    · obtain ⟨r, h_r, -, h_eq⟩ := h_row x h_x (Nat.not_lt.mp h_old) h_before
      exact ⟨_, mem_replaceInto.mpr (.inr (mem_grouped.mpr ⟨_, ⟨r, h_r, rfl⟩, rfl⟩)),
        (h_key _ _).trans h_eq⟩

end RollUps

end RollUp
