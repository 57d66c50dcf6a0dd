/-
  Kubek.Lib.Numerals

  Positional numerals over any alphabet of digits: what a numeral stands for, that one
  without leading zeros is determined by its number, leading zeros taken away, and the
  first digits of a numeral and its blocks.
-/

import Mathlib.Data.List.Induction
import Mathlib.Data.Nat.Digits.Defs

namespace Numerals

universe u

variable {α : Type u} (val : α → Nat) (radix : Nat)

/-- What digits stand for. -/
def value (cs : List α) : Nat := cs.foldl (fun n c => n * radix + val c) 0

/-- No leading zero, but for zero itself. -/
def Canonical (cs : List α) : Prop := ∃ c rest, cs = c :: rest ∧ (val c = 0 → rest = [])

/-- Leading zeros taken away, up to the last character. -/
def stripZeros (isZero : α → Bool) : List α → List α
  | c :: d :: cs => if isZero c then stripZeros isZero (d :: cs) else c :: d :: cs
  | cs => cs

section Value

variable {val radix} {cs ds : List α} {isZero : α → Bool}

theorem value_concat (cs : List α) (c : α) :
    value val radix (cs ++ [c]) = value val radix cs * radix + val c := by
  rw [value, List.foldl_append]
  rfl

theorem value_eq_ofDigits (cs : List α) :
    value val radix cs = Nat.ofDigits radix (cs.map val).reverse := by
  induction cs using List.reverseRecOn with
  | nil => rfl
  | append_singleton cs c ih =>
    rw [value_concat, ih, List.map_append, List.reverse_append, List.map_singleton,
      List.reverse_singleton, List.singleton_append, Nat.ofDigits_cons, Nat.add_comm, Nat.mul_comm]

theorem value_cons_zero {c : α} (h : val c = 0) (cs : List α) :
    value val radix (c :: cs) = value val radix cs := by
  rw [value, List.foldl_cons, h, Nat.zero_mul]
  rfl

/-- Numerals are told apart by the numbers of their digits. -/
theorem eq_of_map_val (h_inj : ∀ c ∈ cs, ∀ d ∈ ds, val c = val d → c = d)
    (h : cs.map val = ds.map val) : cs = ds := by
  have h_len : cs.length = ds.length := by simpa using congrArg List.length h
  refine List.ext_getElem h_len fun i h_i h_i' => ?_
  refine h_inj _ (List.getElem_mem h_i) _ (List.getElem_mem h_i') ?_
  have h_val := congrArg (fun l : List Nat => l[i]?) h
  simpa [h_i, h_i'] using h_val

/-- Numerals without a leading zero are determined by what they stand for. -/
theorem eq_of_leading (h_radix : 1 < radix) (h_cs : ∀ c ∈ cs, val c < radix)
    (h_ds : ∀ d ∈ ds, val d < radix) (h_inj : ∀ c ∈ cs, ∀ d ∈ ds, val c = val d → c = d)
    (h_lead : cs.head?.map val ≠ some 0) (h_lead' : ds.head?.map val ≠ some 0)
    (h : value val radix cs = value val radix ds) : cs = ds := by
  have h_digits : ∀ xs : List α, (∀ x ∈ xs, val x < radix) → xs.head?.map val ≠ some 0 →
      Nat.digits radix (value val radix xs) = (xs.map val).reverse := by
    intro xs h_xs h_x
    rw [value_eq_ofDigits]
    refine Nat.digits_ofDigits radix h_radix _ (fun n h_n => ?_) fun h_ne h_last => h_x ?_
    · obtain ⟨x, h_x, rfl⟩ := List.mem_map.mp (List.mem_reverse.mp h_n)
      exact h_xs x h_x
    · rw [List.getLast_reverse] at h_last
      have h_nonempty : xs.map val ≠ [] := fun h_nil => h_ne (by rw [h_nil]; rfl)
      rw [← List.head?_map, List.head?_eq_some_head h_nonempty, h_last]
  have h_map : cs.map val = ds.map val := by
    rw [← List.reverse_inj, ← h_digits cs h_cs h_lead, ← h_digits ds h_ds h_lead', h]
  exact eq_of_map_val h_inj h_map

theorem value_pos (h_radix : 0 < radix) {c : α} (h : val c ≠ 0) (cs : List α) :
    0 < value val radix (c :: cs) := by
  induction cs using List.reverseRecOn with
  | nil =>
    show 0 < 0 * radix + val c
    rw [Nat.zero_mul, Nat.zero_add]
    exact Nat.pos_of_ne_zero h
  | append_singleton cs d ih =>
    rw [← List.cons_append, value_concat]
    exact Nat.add_pos_left (Nat.mul_pos ih h_radix) _

/-- Canonical numerals are determined by what they stand for. -/
theorem eq_of_value (h_radix : 1 < radix) (h_cs : ∀ c ∈ cs, val c < radix)
    (h_ds : ∀ d ∈ ds, val d < radix) (h_inj : ∀ c ∈ cs, ∀ d ∈ ds, val c = val d → c = d)
    (h_canon : Canonical val cs) (h_canon' : Canonical val ds)
    (h : value val radix cs = value val radix ds) : cs = ds := by
  obtain ⟨c, cs, rfl, h_c⟩ := h_canon
  obtain ⟨d, ds, rfl, h_d⟩ := h_canon'
  have h_pos : 0 < radix := Nat.lt_trans Nat.zero_lt_one h_radix
  by_cases h_zero : val c = 0
  · have h_rest := h_c h_zero
    subst h_rest
    rw [value_cons_zero h_zero] at h
    have h_zero' : val d = 0 := by
      by_contra h_ne
      exact absurd h (Nat.ne_of_lt (value_pos h_pos h_ne ds))
    have h_rest := h_d h_zero'
    subst h_rest
    rw [h_inj c List.mem_cons_self d List.mem_cons_self (h_zero.trans h_zero'.symm)]
  · have h_zero' : val d ≠ 0 := by
      intro h_d_zero
      have h_rest := h_d h_d_zero
      subst h_rest
      rw [value_cons_zero h_d_zero] at h
      exact absurd h.symm (Nat.ne_of_lt (value_pos h_pos h_zero cs))
    exact eq_of_leading h_radix h_cs h_ds h_inj (by simpa using h_zero) (by simpa using h_zero') h

theorem value_lt (h_cs : ∀ c ∈ cs, val c < radix) : value val radix cs < radix ^ cs.length := by
  induction cs using List.reverseRecOn with
  | nil => exact Nat.one_pos
  | append_singleton cs c ih =>
    have h_c := h_cs c (List.mem_append_right _ (List.mem_singleton_self c))
    have h_rest := ih fun x h_x => h_cs x (List.mem_append_left _ h_x)
    rw [value_concat, List.length_append, List.length_singleton, Nat.pow_succ]
    have h_le : (value val radix cs + 1) * radix ≤ radix ^ cs.length * radix :=
      Nat.mul_le_mul_right radix h_rest
    rw [Nat.add_mul, Nat.one_mul] at h_le
    omega

attribute [local simp] stripZeros in
theorem value_stripZeros (h : ∀ c, isZero c = true → val c = 0) (cs : List α) :
    value val radix (stripZeros isZero cs) = value val radix cs := by
  induction cs with
  | nil => rfl
  | cons c cs ih =>
    cases cs with
    | nil => rfl
    | cons d cs =>
      rw [stripZeros]
      split
      · rename_i h_c
        rw [ih, value_cons_zero (h c h_c)]
      · rfl

theorem stripZeros_subset (isZero : α → Bool) (cs : List α) : stripZeros isZero cs ⊆ cs := by
  induction cs with
  | nil => exact List.Subset.refl _
  | cons c cs ih =>
    cases cs with
    | nil => exact List.Subset.refl _
    | cons d cs =>
      rw [stripZeros]
      split
      · exact fun x h_x => List.mem_cons_of_mem c (ih h_x)
      · exact List.Subset.refl _

theorem canonical_stripZeros (h_ne : cs ≠ []) (h : ∀ c ∈ cs, val c = 0 → isZero c = true) :
    Canonical val (stripZeros isZero cs) := by
  induction cs with
  | nil => exact absurd rfl h_ne
  | cons c cs ih =>
    cases cs with
    | nil => exact ⟨c, [], rfl, fun _ => rfl⟩
    | cons d cs =>
      rw [stripZeros]
      split
      · exact ih (List.cons_ne_nil d cs) fun x h_x => h x (List.mem_cons_of_mem c h_x)
      · rename_i h_c
        exact ⟨c, d :: cs, rfl, fun h_zero => absurd (h c List.mem_cons_self h_zero) h_c⟩

/-! ## Parts of numerals -/

theorem value_append (cs ds : List α) :
    value val radix (cs ++ ds) = value val radix cs * radix ^ ds.length + value val radix ds := by
  induction ds using List.reverseRecOn with
  | nil => rw [List.append_nil, List.length_nil, Nat.pow_zero, Nat.mul_one]; rfl
  | append_singleton ds d ih =>
    rw [← List.append_assoc, value_concat, value_concat, ih, List.length_append,
      List.length_singleton, Nat.pow_succ, Nat.add_mul, Nat.mul_assoc, Nat.add_assoc]

theorem value_replicate_zero {c : α} (h : val c = 0) (n : Nat) (cs : List α) :
    value val radix (List.replicate n c ++ cs) = value val radix cs := by
  induction n with
  | zero => rfl
  | succ n ih => rw [List.replicate_succ, List.cons_append, value_cons_zero h, ih]

/-- The first digits are the number without the places behind them. -/
theorem value_take (h_radix : 0 < radix) (h_cs : ∀ c ∈ cs, val c < radix) (n : Nat) :
    value val radix (cs.take n) = value val radix cs / radix ^ (cs.length - n) := by
  have h_split : value val radix (cs.take n ++ cs.drop n) = _ := value_append (cs.take n) (cs.drop n)
  have h_drop : value val radix (cs.drop n) < radix ^ (cs.drop n).length :=
    value_lt fun c h_c => h_cs c (List.mem_of_mem_drop h_c)
  rw [List.length_drop] at h_drop
  rw [List.take_append_drop, List.length_drop] at h_split
  rw [h_split, Nat.mul_comm, Nat.mul_add_div (Nat.pow_pos h_radix), Nat.div_eq_of_lt h_drop,
    Nat.add_zero]

/-- Of one length, numerals are determined by what they stand for. -/
theorem eq_of_length (h_radix : 1 < radix) (h_cs : ∀ c ∈ cs, val c < radix)
    (h_ds : ∀ d ∈ ds, val d < radix) (h_inj : ∀ c ∈ cs, ∀ d ∈ ds, val c = val d → c = d)
    (h_len : cs.length = ds.length) (h : value val radix cs = value val radix ds) : cs = ds := by
  rw [value_eq_ofDigits, value_eq_ofDigits] at h
  have h_map : (cs.map val).reverse = (ds.map val).reverse := by
    refine Nat.ofDigits_inj_of_len_eq h_radix (by simpa using h_len) ?_ ?_ h
    · intro n h_n
      obtain ⟨c, h_c, rfl⟩ := List.mem_map.mp (List.mem_reverse.mp h_n)
      exact h_cs c h_c
    · intro n h_n
      obtain ⟨d, h_d, rfl⟩ := List.mem_map.mp (List.mem_reverse.mp h_n)
      exact h_ds d h_d
  exact eq_of_map_val h_inj (List.reverse_inj.mp h_map)

/-- Blocks of digits are digits to a higher base. -/
theorem value_flatten {k : Nat} {blocks : List (List α)} (h : ∀ b ∈ blocks, b.length = k) :
    value val radix blocks.flatten = value (value val radix) (radix ^ k) blocks := by
  induction blocks using List.reverseRecOn with
  | nil => rfl
  | append_singleton blocks b ih =>
    have h_b := h b (List.mem_append_right _ (List.mem_singleton_self b))
    have h_rest := ih fun x h_x => h x (List.mem_append_left _ h_x)
    rw [List.flatten_append, List.flatten_singleton, value_append, value_concat, h_rest, h_b]

theorem value_congr {β : Type u} {val' : β → Nat} {xs : List β} (h : cs.map val = xs.map val') :
    value val radix cs = value val' radix xs := by
  rw [value_eq_ofDigits, value_eq_ofDigits, h]

end Value

/-! ## The texts of numbers -/

section Texts

variable {val : Char → Nat} {radix : Nat}

theorem value_toDigits (h_radix : 1 < radix) (h_val : ∀ d < radix, val (Nat.digitChar d) = d)
    (n : Nat) : value val radix (Nat.toDigits radix n) = n := by
  induction n using Nat.strongRecOn with
  | _ n ih =>
    rw [Nat.toDigits_eq_if h_radix]
    split
    · rename_i h_lt
      show 0 * radix + val (Nat.digitChar n) = n
      rw [Nat.zero_mul, Nat.zero_add, h_val n h_lt]
    · rename_i h_le
      have h_pos : 0 < n := by omega
      rw [value_concat, ih (n / radix) (Nat.div_lt_self h_pos h_radix),
        h_val _ (Nat.mod_lt n (Nat.lt_trans Nat.zero_lt_one h_radix)), Nat.mul_comm]
      exact Nat.div_add_mod n radix

theorem digitChar_of_mem_toDigits (h_radix : 1 < radix) {n : Nat} {c : Char}
    (h : c ∈ Nat.toDigits radix n) : ∃ d < radix, c = Nat.digitChar d := by
  induction n using Nat.strongRecOn with
  | _ n ih =>
    rw [Nat.toDigits_eq_if h_radix] at h
    split at h
    · rename_i h_lt
      exact ⟨n, h_lt, List.mem_singleton.mp h⟩
    · rename_i h_le
      obtain h | h := List.mem_append.mp h
      · exact ih (n / radix) (Nat.div_lt_self (by omega) h_radix) h
      · exact ⟨n % radix, Nat.mod_lt n (Nat.lt_trans Nat.zero_lt_one h_radix),
          List.mem_singleton.mp h⟩

end Texts

end Numerals
