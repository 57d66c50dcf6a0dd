/-
  Kubek.Lib.IpText

  Textual IP addresses as `net.isIP` accepts them, and what they mean.

  An IPv4 address is four decimal numbers up to 255 without leading zeros. An IPv6 address is
  eight groups of one to four hexadecimal digits; one run of them may be left out with `::`,
  the last two may be written as an IPv4 address, and a zone may follow a percent sign.
-/

import Mathlib.Data.List.TakeWhile
import Kubek.Lib.JsText
import Kubek.Lib.Numerals

namespace IpText

abbrev Text := List Char

/-! ## Digits and numbers -/

def decimals : Text := "0123456789".toList
def hexadecimals : Text := "0123456789abcdef".toList

/-- `toLowerCase`, on ASCII. -/
def lower (c : Char) : Char :=
  if 'A' ≤ c ∧ c ≤ 'Z' then Char.ofNat (c.toNat + 32) else c

def digit (c : Char) : Nat := decimals.idxOf c
def hexDigit (c : Char) : Nat := hexadecimals.idxOf (lower c)

def isDigit (c : Char) : Bool := decimals.contains c
def isHexDigit (c : Char) : Bool := hexadecimals.contains (lower c)

def decimal (t : Text) : Nat := Numerals.value digit 10 t
def hexadecimal (t : Text) : Nat := Numerals.value hexDigit 16 t

/-! ## IPv4 -/

/-- A number up to 255 without leading zeros. -/
def isOctet (t : Text) : Bool :=
  !t.isEmpty && t.all isDigit && (t.head? != some '0' || t.length == 1) && decide (decimal t ≤ 255)

def isIPv4 (t : Text) : Bool :=
  let parts := JsText.splitChars '.' t
  parts.length == 4 && parts.all isOctet

def octets (t : Text) : List Nat := (JsText.splitChars '.' t).map decimal

/-! ## IPv6 -/

/-- One to four hexadecimal digits. -/
def isGroup (t : Text) : Bool :=
  !t.isEmpty && decide (t.length ≤ 4) && t.all isHexDigit

/-- Groups, of which the last may be an IPv4 address. -/
def areGroups : List Text → Bool
  | [] => true
  | [t] => isGroup t || isIPv4 t
  | t :: ts => isGroup t && areGroups ts

/-- How many words of 16 bits groups stand for. -/
def width : List Text → Nat
  | [] => 0
  | t :: ts => (if isIPv4 t then 2 else 1) + width ts

/-- `split("::")`. -/
def splitDouble : Text → List Text
  | [] => [[]]
  | ':' :: ':' :: cs => [] :: splitDouble cs
  | c :: cs =>
      match splitDouble cs with
      | [] => [[c]]
      | part :: parts => (c :: part) :: parts

/-- `text ? text.split(":") : []`. -/
def colonParts (t : Text) : List Text := if t = [] then [] else JsText.splitChars ':' t

/-- What is before the zone. -/
def address (t : Text) : Text := t.takeWhile (· != '%')

/-- The zone with its percent sign, if there is one. -/
def zone (t : Text) : Text := t.dropWhile (· != '%')

def isZoneChar (c : Char) : Bool :=
  isDigit c || (('a' ≤ c && c ≤ 'z') || ('A' ≤ c && c ≤ 'Z')) || ['-', '.', ':'].contains c

def isZone : Text → Bool
  | [] => true
  | _ :: z => !z.isEmpty && z.all isZoneChar

def isIPv6 (t : Text) : Bool :=
  isZone (zone t) &&
    match splitDouble (address t) with
    | [whole] => areGroups (JsText.splitChars ':' whole) && width (JsText.splitChars ':' whole) == 8
    | [a, b] =>
        (colonParts a).all isGroup && areGroups (colonParts b) &&
          decide (width (colonParts a) + width (colonParts b) ≤ 7)
    | _ => false

def isIP (t : Text) : Bool := isIPv4 t || isIPv6 t

/-! ## Meaning -/

/-- Bytes as words of 16 bits. -/
def pairs : List Nat → List Nat
  | a :: b :: rest => (a * 256 + b) :: pairs rest
  | _ => []

def wordsOf (t : Text) : List Nat := if isIPv4 t then pairs (octets t) else [hexadecimal t]

/-- The eight words of an IPv6 address. -/
def words (t : Text) : List Nat :=
  match splitDouble (address t) with
  | [whole] => (JsText.splitChars ':' whole).flatMap wordsOf
  | [a, b] =>
      (colonParts a).flatMap wordsOf ++
        List.replicate (8 - width (colonParts a) - width (colonParts b)) 0 ++
        (colonParts b).flatMap wordsOf
  | _ => []

/-! ## Splitting -/

section Splitting

variable {t a b cs : Text} {sep : Char}

theorem intercalate_splitChars (sep : Char) (t : Text) :
    [sep].intercalate (JsText.splitChars sep t) = t := by
  induction t with
  | nil => rfl
  | cons c t ih =>
    rw [JsText.splitChars]
    split
    · rename_i h_c
      obtain ⟨part, parts, h_parts⟩ :=
        List.exists_cons_of_ne_nil (JsText.splitChars_ne_nil sep t)
      rw [h_parts] at ih ⊢
      rw [List.intercalate_cons_cons, ih, h_c]
      rfl
    · split
      · rename_i h_nil
        exact absurd h_nil (JsText.splitChars_ne_nil sep t)
      · rename_i part parts h_parts
        rw [h_parts] at ih
        cases parts with
        | nil => simpa using ih
        | cons next parts =>
          rw [List.intercalate_cons_cons] at ih ⊢
          rw [← ih, List.cons_append, List.cons_append]

theorem splitChars_intercalate {parts : List Text} (h_ne : parts ≠ [])
    (h : ∀ part ∈ parts, sep ∉ part) :
    JsText.splitChars sep ([sep].intercalate parts) = parts := by
  induction parts with
  | nil => exact absurd rfl h_ne
  | cons part parts ih =>
    have h_part := h part List.mem_cons_self
    cases parts with
    | nil => rw [List.intercalate_singleton, JsText.splitChars_of_not_mem h_part]
    | cons next parts =>
      rw [List.intercalate_cons_cons, List.append_assoc, List.singleton_append,
        JsText.splitChars_append, JsText.splitChars_of_not_mem h_part,
        ih (List.cons_ne_nil _ _) fun p h_p => h p (List.mem_cons_of_mem part h_p)]
      rfl

theorem splitChars_map {f : Char → Char} (h : ∀ c, f c = sep ↔ c = sep) (t : Text) :
    JsText.splitChars sep (t.map f) = (JsText.splitChars sep t).map (List.map f) := by
  induction t with
  | nil => rfl
  | cons c t ih =>
    rw [List.map_cons, JsText.splitChars, JsText.splitChars, ih]
    by_cases h_c : c = sep
    · rw [if_pos h_c, if_pos ((h c).mpr h_c)]
      rfl
    · rw [if_neg h_c, if_neg (mt (h c).mp h_c)]
      cases JsText.splitChars sep t with
      | nil => rfl
      | cons part parts => rfl

attribute [local simp] splitDouble in
theorem splitDouble_ne_nil (t : Text) : splitDouble t ≠ [] := by
  induction t using splitDouble.induct with
  | case1 => exact List.cons_ne_nil _ _
  | case2 cs ih => exact List.cons_ne_nil _ _
  | case3 c cs h_c h_nil ih => exact absurd h_nil ih
  | case4 c cs h_c part parts h_parts ih =>
    rw [splitDouble.eq_3 c cs h_c, h_parts]
    exact List.cons_ne_nil _ _

theorem splitDouble_cons {c : Char} (h : ∀ cs', c = ':' → cs = ':' :: cs' → False) {part : Text}
    {parts : List Text} (h_parts : splitDouble cs = part :: parts) :
    splitDouble (c :: cs) = (c :: part) :: parts := by
  rw [splitDouble.eq_3 c cs h, h_parts]

theorem splitDouble_of_not_mem (h : ':' ∉ t) : splitDouble t = [t] := by
  induction t with
  | nil => rfl
  | cons c t ih =>
    refine splitDouble_cons (fun cs' h_c _ => h (h_c ▸ List.mem_cons_self)) ?_
    exact ih fun h_mem => h (List.mem_cons_of_mem c h_mem)

theorem intercalate_splitDouble (t : Text) : [':', ':'].intercalate (splitDouble t) = t := by
  induction t using splitDouble.induct with
  | case1 => rfl
  | case2 cs ih =>
    obtain ⟨part, parts, h_parts⟩ := List.exists_cons_of_ne_nil (splitDouble_ne_nil cs)
    rw [h_parts] at ih
    rw [splitDouble.eq_2, h_parts, List.intercalate_cons_cons, ih]
    rfl
  | case3 c cs h_c h_nil ih => exact absurd h_nil (splitDouble_ne_nil cs)
  | case4 c cs h_c part parts h_parts ih =>
    rw [splitDouble_cons h_c h_parts]
    rw [h_parts] at ih
    cases parts with
    | nil => simpa using ih
    | cons next parts =>
      rw [List.intercalate_cons_cons] at ih ⊢
      rw [← ih, List.cons_append, List.cons_append]

theorem splitDouble_map {f : Char → Char} (h : ∀ c, f c = ':' ↔ c = ':') (t : Text) :
    splitDouble (t.map f) = (splitDouble t).map (List.map f) := by
  induction t using splitDouble.induct with
  | case1 => rfl
  | case2 cs ih =>
    have h_colon : f ':' = ':' := (h ':').mpr rfl
    rw [List.map_cons, List.map_cons, h_colon, splitDouble.eq_2, splitDouble.eq_2, ih]
    rfl
  | case3 c cs h_c h_nil ih => exact absurd h_nil (splitDouble_ne_nil cs)
  | case4 c cs h_c part parts h_parts ih =>
    rw [h_parts, List.map_cons] at ih
    rw [splitDouble_cons h_c h_parts, List.map_cons, splitDouble_cons _ ih, List.map_cons,
      List.map_cons]
    intro cs' h_f h_cs
    cases cs with
    | nil => cases h_cs
    | cons d cs =>
      rw [List.map_cons, List.cons.injEq] at h_cs
      exact h_c cs ((h c).mp h_f) (by rw [(h d).mp h_cs.1])

/-- Groups between single colons hold no double one. -/
theorem splitDouble_groups {parts : List Text} (h_ne : parts ≠ [])
    (h_nonempty : ∀ part ∈ parts, part ≠ []) (h_colon : ∀ part ∈ parts, ':' ∉ part) :
    splitDouble ([':'].intercalate parts) = [[':'].intercalate parts] := by
  have h_one : ∀ xs rest : Text, ':' ∉ xs → splitDouble rest = [rest] →
      splitDouble (xs ++ rest) = [xs ++ rest] := by
    intro xs rest h_xs h_rest
    induction xs with
    | nil => exact h_rest
    | cons x xs ih =>
      rw [List.cons_append]
      refine splitDouble_cons (fun cs' h_x _ => h_xs (h_x ▸ List.mem_cons_self)) ?_
      exact ih fun h_mem => h_xs (List.mem_cons_of_mem x h_mem)
  induction parts with
  | nil => exact absurd rfl h_ne
  | cons part parts ih =>
    have h_part := h_colon part List.mem_cons_self
    cases parts with
    | nil =>
      have h_alone := h_one part [] h_part rfl
      rw [List.append_nil] at h_alone
      rw [List.intercalate_singleton, h_alone]
    | cons next parts =>
      have h_rest := ih (List.cons_ne_nil _ _)
        (fun p h_p => h_nonempty p (List.mem_cons_of_mem part h_p))
        fun p h_p => h_colon p (List.mem_cons_of_mem part h_p)
      have h_next : next ≠ [] := h_nonempty next (List.mem_cons_of_mem part List.mem_cons_self)
      have h_head : ∀ cs', [':'].intercalate (next :: parts) ≠ ':' :: cs' := by
        intro cs' h_eq
        obtain ⟨d, ds, rfl⟩ := List.exists_cons_of_ne_nil h_next
        have h_d : d = ':' := by
          cases parts with
          | nil =>
            rw [List.intercalate_singleton] at h_eq
            exact (List.cons.inj h_eq).1
          | cons p parts =>
            rw [List.intercalate_cons_cons] at h_eq
            exact (List.cons.inj h_eq).1
        exact h_colon (d :: ds) (List.mem_cons_of_mem part List.mem_cons_self)
          (h_d ▸ List.mem_cons_self)
      have h_colon_rest := splitDouble_cons (c := ':') (fun cs' _ h_cs => h_head cs' h_cs) h_rest
      rw [List.intercalate_cons_cons, List.append_assoc, List.singleton_append]
      exact h_one part _ h_part h_colon_rest

end Splitting

/-! ## What accepted texts are made of -/

section Made

variable {t a b : Text} {c : Char} {ts : List Text}

theorem isDigit_iff : isDigit c = true ↔ c ∈ decimals := by
  rw [isDigit, List.contains_iff_mem]

theorem isHexDigit_iff : isHexDigit c = true ↔ lower c ∈ hexadecimals := by
  rw [isHexDigit, List.contains_iff_mem]

/-- The characters that are neither digits nor dots. -/
theorem isDigit_ne (h : isDigit c = true) : c ≠ ':' ∧ c ≠ '.' ∧ c ≠ '%' := by
  refine ⟨?_, ?_, ?_⟩
  all_goals
    rintro rfl
    exact absurd h (by decide)

theorem isHexDigit_ne (h : isHexDigit c = true) : c ≠ ':' ∧ c ≠ '.' ∧ c ≠ '%' := by
  refine ⟨?_, ?_, ?_⟩
  all_goals
    rintro rfl
    exact absurd h (by decide)

theorem digit_lt (h : isDigit c = true) : digit c < 10 := List.idxOf_lt_length_of_mem (isDigit_iff.mp h)

theorem hexDigit_lt (h : isHexDigit c = true) : hexDigit c < 16 :=
  List.idxOf_lt_length_of_mem (isHexDigit_iff.mp h)

theorem digit_inj {d : Char} (h : isDigit c = true) (h_eq : digit c = digit d) : c = d :=
  (List.idxOf_inj (isDigit_iff.mp h)).mp h_eq

theorem hexDigit_inj {d : Char} (h : isHexDigit c = true) (h_eq : hexDigit c = hexDigit d) :
    lower c = lower d :=
  (List.idxOf_inj (isHexDigit_iff.mp h)).mp h_eq

structure IsGroup (t : Text) : Prop where
  nonempty : t ≠ []
  short : t.length ≤ 4
  hex : ∀ c ∈ t, isHexDigit c = true

theorem isGroup_iff : isGroup t = true ↔ IsGroup t := by
  simp only [isGroup, Bool.and_eq_true, Bool.not_eq_true', List.isEmpty_eq_false_iff,
    decide_eq_true_eq, List.all_eq_true]
  exact ⟨fun h => ⟨h.1.1, h.1.2, h.2⟩, fun h => ⟨⟨h.nonempty, h.short⟩, h.hex⟩⟩

theorem IsGroup.not_mem (h : IsGroup t) : ':' ∉ t ∧ '.' ∉ t ∧ '%' ∉ t := by
  refine ⟨fun h_mem => ?_, fun h_mem => ?_, fun h_mem => ?_⟩
  · exact (isHexDigit_ne (h.hex _ h_mem)).1 rfl
  · exact (isHexDigit_ne (h.hex _ h_mem)).2.1 rfl
  · exact (isHexDigit_ne (h.hex _ h_mem)).2.2 rfl

structure IsOctet (t : Text) : Prop where
  nonempty : t ≠ []
  digits : ∀ c ∈ t, isDigit c = true
  canonical : Numerals.Canonical digit t
  bound : decimal t ≤ 255

theorem isOctet_iff : isOctet t = true ↔ IsOctet t := by
  simp only [isOctet, Bool.and_eq_true, Bool.not_eq_true', List.isEmpty_eq_false_iff,
    decide_eq_true_eq, List.all_eq_true, Bool.or_eq_true, bne_iff_ne, ne_eq, beq_iff_eq]
  have h_zero : ∀ c, isDigit c = true → digit c = 0 → c = '0' := fun c h_c h_eq =>
    digit_inj h_c (h_eq.trans (by decide))
  constructor
  · rintro ⟨⟨⟨h_ne, h_digits⟩, h_lead⟩, h_bound⟩
    refine ⟨h_ne, h_digits, ?_, h_bound⟩
    obtain ⟨c, rest, rfl⟩ := List.exists_cons_of_ne_nil h_ne
    refine ⟨c, rest, rfl, fun h_c => ?_⟩
    obtain h_head | h_len := h_lead
    · exact absurd (congrArg some (h_zero c (h_digits c List.mem_cons_self) h_c)) h_head
    · exact List.eq_nil_of_length_eq_zero (by simpa using h_len)
  · intro h
    refine ⟨⟨⟨h.nonempty, h.digits⟩, ?_⟩, h.bound⟩
    obtain ⟨c, rest, rfl, h_c⟩ := h.canonical
    by_cases h_eq : c = '0'
    · right
      rw [h_c (by rw [h_eq]; decide)]
      rfl
    · left
      intro h_head
      exact h_eq (Option.some.inj h_head)

structure IsIPv4 (t : Text) : Prop where
  four : (JsText.splitChars '.' t).length = 4
  octets : ∀ part ∈ JsText.splitChars '.' t, IsOctet part

theorem isIPv4_iff : isIPv4 t = true ↔ IsIPv4 t := by
  simp only [isIPv4, Bool.and_eq_true, beq_iff_eq, List.all_eq_true]
  exact ⟨fun h => ⟨h.1, fun part h_part => isOctet_iff.mp (h.2 part h_part)⟩,
    fun h => ⟨h.four, fun part h_part => isOctet_iff.mpr (h.octets part h_part)⟩⟩

theorem mem_intercalate {sep : Char} {parts : List Text} (h : c ∈ [sep].intercalate parts) :
    c = sep ∨ ∃ part ∈ parts, c ∈ part := by
  induction parts with
  | nil => cases h
  | cons part parts ih =>
    cases parts with
    | nil =>
      rw [List.intercalate_singleton] at h
      exact .inr ⟨part, List.mem_cons_self, h⟩
    | cons next parts =>
      rw [List.intercalate_cons_cons] at h
      obtain h | h := List.mem_append.mp h
      · obtain h | h := List.mem_append.mp h
        · exact .inr ⟨part, List.mem_cons_self, h⟩
        · exact .inl (List.mem_singleton.mp h)
      · obtain h | ⟨p, h_p, h_c⟩ := ih h
        · exact .inl h
        · exact .inr ⟨p, List.mem_cons_of_mem part h_p, h_c⟩

theorem mem_of_mem_splitChars {sep : Char} {part : Text} (h : part ∈ JsText.splitChars sep t)
    (h_c : c ∈ part) : c ∈ t := by
  have h_join : ∀ parts : List Text, part ∈ parts → c ∈ [sep].intercalate parts := by
    intro parts h_part
    induction parts with
    | nil => cases h_part
    | cons p parts ih =>
      cases parts with
      | nil =>
        rw [List.intercalate_singleton, ← List.mem_singleton.mp h_part]
        exact h_c
      | cons next parts =>
        rw [List.intercalate_cons_cons]
        obtain rfl | h_part := List.mem_cons.mp h_part
        · exact List.mem_append_left _ (List.mem_append_left _ h_c)
        · exact List.mem_append_right _ (ih h_part)
  rw [← intercalate_splitChars sep t]
  exact h_join _ h

theorem IsIPv4.dot_mem (h : IsIPv4 t) : '.' ∈ t := by
  by_contra h_dot
  have h_four := h.four
  rw [JsText.splitChars_of_not_mem h_dot] at h_four
  cases h_four

theorem IsIPv4.not_mem (h : IsIPv4 t) : ':' ∉ t ∧ '%' ∉ t := by
  have h_chars : ∀ c ∈ t, c = '.' ∨ isDigit c = true := by
    intro c h_c
    rw [← intercalate_splitChars '.' t] at h_c
    obtain h_c | ⟨part, h_part, h_c⟩ := mem_intercalate h_c
    · exact .inl h_c
    · exact .inr ((h.octets part h_part).digits c h_c)
  constructor
  · intro h_mem
    obtain h_c | h_c := h_chars _ h_mem
    · exact absurd h_c (by decide)
    · exact (isDigit_ne h_c).1 rfl
  · intro h_mem
    obtain h_c | h_c := h_chars _ h_mem
    · exact absurd h_c (by decide)
    · exact (isDigit_ne h_c).2.2 rfl

theorem IsIPv4.ne_nil (h : IsIPv4 t) : t ≠ [] := by
  rintro rfl
  exact absurd h.four (by decide)

/-- A group has no dot, an IPv4 address has three. -/
theorem IsGroup.not_isIPv4 (h : IsGroup t) : isIPv4 t = false := by
  rw [isIPv4, JsText.splitChars_of_not_mem h.not_mem.2.1]
  rfl

theorem IsGroup.width (h : IsGroup t) (ts : List Text) : width (t :: ts) = 1 + width ts := by
  rw [IpText.width, h.not_isIPv4, if_neg Bool.false_ne_true]

theorem IsGroup.wordsOf (h : IsGroup t) : wordsOf t = [hexadecimal t] := by
  rw [IpText.wordsOf, h.not_isIPv4, if_neg Bool.false_ne_true]

/-- Groups all of them, or groups in front of an IPv4 address. -/
theorem areGroups_iff : areGroups ts = true ↔ (∀ g ∈ ts, IsGroup g) ∨
    ∃ gs v, ts = gs ++ [v] ∧ (∀ g ∈ gs, IsGroup g) ∧ IsIPv4 v := by
  induction ts with
  | nil => simp [areGroups]
  | cons t ts ih =>
    cases ts with
    | nil =>
      rw [areGroups, Bool.or_eq_true, isGroup_iff, isIPv4_iff]
      constructor
      · rintro (h | h)
        · exact .inl fun g h_g => List.mem_singleton.mp h_g ▸ h
        · exact .inr ⟨[], t, rfl, fun g h_g => absurd h_g List.not_mem_nil, h⟩
      · rintro (h | ⟨gs, v, h_eq, h_gs, h_v⟩)
        · exact .inl (h t List.mem_cons_self)
        · cases gs with
          | nil => exact .inr ((List.cons.inj h_eq).1 ▸ h_v)
          | cons g gs => exact .inl ((List.cons.inj h_eq).1 ▸ h_gs g List.mem_cons_self)
    | cons next ts =>
      have h_unfold : areGroups (t :: next :: ts) = (isGroup t && areGroups (next :: ts)) := rfl
      rw [h_unfold, Bool.and_eq_true, isGroup_iff, ih]
      constructor
      · rintro ⟨h_t, h | ⟨gs, v, h_eq, h_gs, h_v⟩⟩
        · left
          intro g h_g
          obtain rfl | h_g := List.mem_cons.mp h_g
          · exact h_t
          · exact h g h_g
        · refine .inr ⟨t :: gs, v, by rw [h_eq]; rfl, fun g h_g => ?_, h_v⟩
          obtain rfl | h_g := List.mem_cons.mp h_g
          · exact h_t
          · exact h_gs g h_g
      · rintro (h | ⟨gs, v, h_eq, h_gs, h_v⟩)
        · exact ⟨h t List.mem_cons_self, .inl fun g h_g => h g (List.mem_cons_of_mem t h_g)⟩
        · cases gs with
          | nil => cases h_eq
          | cons g gs =>
            obtain ⟨rfl, h_tail⟩ := List.cons.inj h_eq
            exact ⟨h_gs t List.mem_cons_self,
              .inr ⟨gs, v, h_tail, fun g h_g => h_gs g (List.mem_cons_of_mem t h_g), h_v⟩⟩

theorem width_groups (h : ∀ g ∈ ts, IsGroup g) (rest : List Text) :
    width (ts ++ rest) = ts.length + width rest := by
  induction ts with
  | nil => rw [List.nil_append, List.length_nil, Nat.zero_add]
  | cons t ts ih =>
    rw [List.cons_append, (h t List.mem_cons_self).width,
      ih fun g h_g => h g (List.mem_cons_of_mem t h_g), List.length_cons]
    omega

theorem flatMap_wordsOf (h : ∀ g ∈ ts, IsGroup g) : ts.flatMap wordsOf = ts.map hexadecimal := by
  induction ts with
  | nil => rfl
  | cons t ts ih =>
    rw [List.flatMap_cons, (h t List.mem_cons_self).wordsOf,
      ih fun g h_g => h g (List.mem_cons_of_mem t h_g)]
    rfl

/-! ## IPv4 addresses as numbers -/

/-- An address is determined by its octets. -/
theorem octets_injective (h : IsIPv4 a) (h' : IsIPv4 b) (h_eq : octets a = octets b) : a = b := by
  have h_parts : JsText.splitChars '.' a = JsText.splitChars '.' b := by
    refine List.ext_getElem (h.four.trans h'.four.symm) fun i h_i h_i' => ?_
    have h_x := h.octets _ (List.getElem_mem h_i)
    have h_y := h'.octets _ (List.getElem_mem h_i')
    have h_val : decimal (JsText.splitChars '.' a)[i] = decimal (JsText.splitChars '.' b)[i] := by
      have h_at := congrArg (fun l : List Nat => l[i]?) h_eq
      simpa [octets, h_i, h_i'] using h_at
    exact Numerals.eq_of_value (by decide) (fun c h_c => digit_lt (h_x.digits c h_c))
      (fun c h_c => digit_lt (h_y.digits c h_c))
      (fun c h_c d _ h_cd => digit_inj (h_x.digits c h_c) h_cd) h_x.canonical h_y.canonical h_val
  rw [← intercalate_splitChars '.' a, ← intercalate_splitChars '.' b, h_parts]

/-- The text of four octets. -/
def dotted (os : List Nat) : Text := ['.'].intercalate (os.map (Nat.toDigits 10))

theorem octet_toDigits {n : Nat} (h : n < 256) :
    isOctet (Nat.toDigits 10 n) = true ∧ decimal (Nat.toDigits 10 n) = n := by
  have h_all : ∀ n < 256, isOctet (Nat.toDigits 10 n) = true ∧ decimal (Nat.toDigits 10 n) = n := by
    decide +kernel
  exact h_all n h

theorem isIPv4_dotted {os : List Nat} (h_four : os.length = 4) (h : ∀ n ∈ os, n < 256) :
    IsIPv4 (dotted os) ∧ octets (dotted os) = os := by
  have h_split : JsText.splitChars '.' (dotted os) = os.map (Nat.toDigits 10) := by
    apply splitChars_intercalate
    · intro h_nil
      rw [List.map_eq_nil_iff.mp h_nil] at h_four
      cases h_four
    · intro part h_part h_dot
      obtain ⟨n, h_n, rfl⟩ := List.mem_map.mp h_part
      have h_octet := isOctet_iff.mp (octet_toDigits (h n h_n)).1
      exact (isDigit_ne (h_octet.digits _ h_dot)).2.1 rfl
  refine ⟨⟨?_, fun part h_part => ?_⟩, ?_⟩
  · rw [h_split, List.length_map, h_four]
  · rw [h_split] at h_part
    obtain ⟨n, h_n, rfl⟩ := List.mem_map.mp h_part
    exact isOctet_iff.mp (octet_toDigits (h n h_n)).1
  · rw [octets, h_split, List.map_map]
    have h_same : os.map (decimal ∘ Nat.toDigits 10) = os.map id :=
      List.map_congr_left fun n h_n => (octet_toDigits (h n h_n)).2
    rw [h_same, List.map_id]

end Made

/-! ## Lower case -/

section Lower

variable {g : Text} {c d : Char}

def capitals : Text := "ABCDEFGHIJKLMNOPQRSTUVWXYZ".toList
def smallLetters : Text := "abcdefghijklmnopqrstuvwxyz".toList

theorem lower_cases (c : Char) : lower c = c ∨ c ∈ capitals ∧ lower c ∈ smallLetters := by
  by_cases h : 'A' ≤ c ∧ c ≤ 'Z'
  · right
    have h_low : 65 ≤ c.toNat := UInt32.le_iff_toNat_le.mp h.1
    have h_high : c.toNat ≤ 90 := UInt32.le_iff_toNat_le.mp h.2
    have h_all : ∀ n < 91, 65 ≤ n →
        Char.ofNat n ∈ capitals ∧ lower (Char.ofNat n) ∈ smallLetters := by
      decide +kernel
    have h_c := h_all c.toNat (by omega) h_low
    rwa [Char.ofNat_toNat] at h_c
  · left
    rw [lower, if_neg h]

/-- Only letters become other characters. -/
theorem lower_eq_iff (h : d ∉ capitals) (h' : d ∉ smallLetters) : lower c = d ↔ c = d := by
  obtain h_c | ⟨h_c, h_low⟩ := lower_cases c
  · rw [h_c]
  · constructor
    · intro h_eq
      exact absurd (h_eq ▸ h_low) h'
    · intro h_eq
      exact absurd (h_eq ▸ h_c) h

theorem hexDigit_lower (h : isHexDigit c = true) :
    isHexDigit (lower c) = true ∧ lower (lower c) = lower c := by
  have h_all : (hexadecimals.all fun d => lower d == d) = true := by decide
  have h_same : lower (lower c) = lower c :=
    beq_iff_eq.mp (List.all_eq_true.mp h_all _ (isHexDigit_iff.mp h))
  refine ⟨isHexDigit_iff.mpr ?_, h_same⟩
  rw [h_same]
  exact isHexDigit_iff.mp h

theorem IsGroup.mapLower (h : IsGroup g) : IsGroup (g.map lower) := by
  refine ⟨fun h_nil => h.nonempty (List.map_eq_nil_iff.mp h_nil), ?_, fun c h_c => ?_⟩
  · rw [List.length_map]
    exact h.short
  · obtain ⟨d, h_d, rfl⟩ := List.mem_map.mp h_c
    exact (hexDigit_lower (h.hex d h_d)).1

theorem hexadecimal_mapLower (h : IsGroup g) : hexadecimal (g.map lower) = hexadecimal g := by
  have h_map : (g.map lower).map hexDigit = g.map hexDigit := by
    rw [List.map_map]
    refine List.map_congr_left fun c h_c => ?_
    show hexadecimals.idxOf (lower (lower c)) = hexadecimals.idxOf (lower c)
    rw [(hexDigit_lower (h.hex c h_c)).2]
  rw [hexadecimal, hexadecimal, Numerals.value_eq_ofDigits, Numerals.value_eq_ofDigits, h_map]

end Lower

/-! ## IPv6 addresses as numbers -/

/-- Nothing, or an IPv4 address. -/
def IsTail (tail : List Text) : Prop := tail = [] ∨ ∃ v, tail = [v] ∧ IsIPv4 v

/-- Eight words written out. -/
structure Full (t : Text) (gs tail : List Text) : Prop where
  whole : splitDouble (address t) = [address t]
  parts : JsText.splitChars ':' (address t) = gs ++ tail
  groups : ∀ g ∈ gs, IsGroup g
  ending : IsTail tail
  width : gs.length + 2 * tail.length = 8

/-- Words left out between `left` and `gs`. -/
structure Cut (t l r : Text) (left gs tail : List Text) : Prop where
  halves : splitDouble (address t) = [l, r]
  front : colonParts l = left
  back : colonParts r = gs ++ tail
  leftGroups : ∀ g ∈ left, IsGroup g
  groups : ∀ g ∈ gs, IsGroup g
  ending : IsTail tail
  width : left.length + gs.length + 2 * tail.length ≤ 7

section Six

variable {t l r : Text} {left gs tail ts : List Text}

theorem areGroups_iff_tail : areGroups ts = true ↔
    ∃ gs tail, ts = gs ++ tail ∧ (∀ g ∈ gs, IsGroup g) ∧ IsTail tail := by
  rw [areGroups_iff]
  constructor
  · rintro (h | ⟨gs, v, h_eq, h_gs, h_v⟩)
    · exact ⟨ts, [], (List.append_nil ts).symm, h, .inl rfl⟩
    · exact ⟨gs, [v], h_eq, h_gs, .inr ⟨v, rfl, h_v⟩⟩
  · rintro ⟨gs, tail, rfl, h_gs, rfl | ⟨v, rfl, h_v⟩⟩
    · rw [List.append_nil]
      exact .inl h_gs
    · exact .inr ⟨gs, v, rfl, h_gs, h_v⟩

theorem width_tail (h_gs : ∀ g ∈ gs, IsGroup g) (h : IsTail tail) :
    width (gs ++ tail) = gs.length + 2 * tail.length := by
  rw [width_groups h_gs]
  obtain rfl | ⟨v, rfl, h_v⟩ := h
  · rfl
  · rw [width, isIPv4_iff.mpr h_v, if_pos rfl]
    rfl

/-- An accepted IPv6 text is written out or cut once. -/
theorem isIPv6_cases (h : isIPv6 t = true) :
    (∃ gs tail, Full t gs tail) ∨ ∃ l r left gs tail, Cut t l r left gs tail := by
  rw [isIPv6, Bool.and_eq_true] at h
  obtain ⟨-, h⟩ := h
  split at h
  · rename_i whole h_split
    have h_whole : whole = address t := by
      have h_join := intercalate_splitDouble (address t)
      rw [h_split, List.intercalate_singleton] at h_join
      exact h_join
    subst h_whole
    rw [Bool.and_eq_true, beq_iff_eq] at h
    obtain ⟨gs, tail, h_parts, h_gs, h_tail⟩ := areGroups_iff_tail.mp h.1
    refine .inl ⟨gs, tail, h_split, h_parts, h_gs, h_tail, ?_⟩
    rw [← width_tail h_gs h_tail, ← h_parts]
    exact h.2
  · rename_i l r h_split
    rw [Bool.and_eq_true, Bool.and_eq_true, decide_eq_true_eq, List.all_eq_true] at h
    obtain ⟨⟨h_left, h_right⟩, h_width⟩ := h
    have h_groups : ∀ g ∈ colonParts l, IsGroup g := fun g h_g => isGroup_iff.mp (h_left g h_g)
    obtain ⟨gs, tail, h_parts, h_gs, h_tail⟩ := areGroups_iff_tail.mp h_right
    refine .inr ⟨l, r, colonParts l, gs, tail, h_split, rfl, h_parts, h_groups, h_gs, h_tail, ?_⟩
    have h_l := width_groups h_groups []
    rw [List.append_nil] at h_l
    rw [h_l, h_parts, width_tail h_gs h_tail, width] at h_width
    omega
  · cases h

/-- What is written out without a zone is accepted. -/
theorem Full.isIPv6 (h : Full t gs tail) (h_zone : zone t = []) : isIPv6 t = true := by
  have h_groups : areGroups (JsText.splitChars ':' (address t)) = true :=
    areGroups_iff_tail.mpr ⟨gs, tail, h.parts, h.groups, h.ending⟩
  have h_width : IpText.width (JsText.splitChars ':' (address t)) = 8 := by
    rw [h.parts, width_tail h.groups h.ending, h.width]
  rw [IpText.isIPv6, h_zone, h.whole]
  simp only [h_groups, h_width]
  rfl

theorem Full.words (h : Full t gs tail) :
    words t = gs.map hexadecimal ++ tail.flatMap wordsOf := by
  rw [IpText.words, h.whole]
  simp only [h.parts, List.flatMap_append, flatMap_wordsOf h.groups]

theorem Cut.words (h : Cut t l r left gs tail) :
    words t = left.map hexadecimal ++
      List.replicate (8 - left.length - (gs.length + 2 * tail.length)) 0 ++
        (gs.map hexadecimal ++ tail.flatMap wordsOf) := by
  have h_left : IpText.width left = left.length := by
    have h_l := width_groups h.leftGroups []
    rwa [List.append_nil, IpText.width, Nat.add_zero] at h_l
  rw [IpText.words, h.halves]
  simp only [h.front, h.back, List.flatMap_append, flatMap_wordsOf h.leftGroups,
    flatMap_wordsOf h.groups, h_left, width_tail h.groups h.ending]

/-- There are two colons at least. -/
theorem colon_mem (h : isIPv6 t = true) : ':' ∈ t := by
  have h_addr : ':' ∈ address t := by
    obtain ⟨gs, tail, h⟩ | ⟨l, r, left, gs, tail, h⟩ := isIPv6_cases h
    · by_contra h_not
      have h_parts := h.parts
      rw [JsText.splitChars_of_not_mem h_not] at h_parts
      have h_len := congrArg List.length h_parts
      have h_width := h.width
      rw [List.length_singleton, List.length_append] at h_len
      omega
    · have h_join := intercalate_splitDouble (address t)
      rw [h.halves, List.intercalate_cons_cons] at h_join
      rw [← h_join]
      simp
  exact List.takeWhile_subset _ h_addr

theorem pairs_octets {v : Text} (h : IsIPv4 v) : ∃ a b c d, octets v = [a, b, c, d] ∧
    (a < 256 ∧ b < 256 ∧ c < 256 ∧ d < 256) ∧ wordsOf v = [a * 256 + b, c * 256 + d] := by
  have h_lt : ∀ n ∈ octets v, n < 256 := by
    intro n h_n
    obtain ⟨part, h_part, rfl⟩ := List.mem_map.mp h_n
    exact Nat.lt_succ_of_le (h.octets part h_part).bound
  have h_len : (octets v).length = 4 := by rw [octets, List.length_map, h.four]
  match h_octets : octets v, h_len with
  | [a, b, c, d], _ =>
    rw [h_octets] at h_lt
    refine ⟨a, b, c, d, rfl, ⟨h_lt a (by simp), h_lt b (by simp), h_lt c (by simp),
      h_lt d (by simp)⟩, ?_⟩
    rw [wordsOf, isIPv4_iff.mpr h, if_pos rfl, h_octets]
    rfl

theorem hexadecimal_lt {g : Text} (h : IsGroup g) : hexadecimal g < 65536 := by
  have h_lt : hexadecimal g < 16 ^ g.length :=
    Numerals.value_lt fun c h_c => hexDigit_lt (h.hex c h_c)
  have h_le : 16 ^ g.length ≤ 16 ^ 4 := Nat.pow_le_pow_right (by decide) h.short
  exact Nat.lt_of_lt_of_le h_lt h_le

/-- Words have 16 bits. -/
theorem words_lt (h : isIPv6 t = true) : ∀ w ∈ words t, w < 65536 := by
  have h_tail : ∀ {tail : List Text}, IsTail tail → ∀ w ∈ tail.flatMap wordsOf, w < 65536 := by
    rintro tail (rfl | ⟨v, rfl, h_v⟩) w h_w
    · cases h_w
    · obtain ⟨a, b, c, d, -, h_lt, h_words⟩ := pairs_octets h_v
      rw [List.flatMap_singleton, h_words] at h_w
      obtain rfl | h_w := List.mem_cons.mp h_w
      · omega
      · rw [List.mem_singleton.mp h_w]
        omega
  have h_groups : ∀ {gs : List Text}, (∀ g ∈ gs, IsGroup g) → ∀ w ∈ gs.map hexadecimal, w < 65536 := by
    intro gs h_gs w h_w
    obtain ⟨g, h_g, rfl⟩ := List.mem_map.mp h_w
    exact hexadecimal_lt (h_gs g h_g)
  intro w h_w
  obtain ⟨gs, tail, h⟩ | ⟨l, r, left, gs, tail, h⟩ := isIPv6_cases h
  · rw [h.words] at h_w
    obtain h_w | h_w := List.mem_append.mp h_w
    · exact h_groups h.groups w h_w
    · exact h_tail h.ending w h_w
  · rw [h.words] at h_w
    obtain h_w | h_w := List.mem_append.mp h_w
    · obtain h_w | h_w := List.mem_append.mp h_w
      · exact h_groups h.leftGroups w h_w
      · rw [(List.mem_replicate.mp h_w).2]
        decide
    · obtain h_w | h_w := List.mem_append.mp h_w
      · exact h_groups h.groups w h_w
      · exact h_tail h.ending w h_w

/-- An IPv6 text is no IPv4 text. -/
theorem not_isIPv4_of_isIPv6 (h : isIPv6 t = true) : isIPv4 t = false := by
  rw [← Bool.not_eq_true]
  exact fun h_v4 => (isIPv4_iff.mp h_v4).not_mem.1 (colon_mem h)

/-- Groups and at most an IPv4 address, eight words together, written out. -/
theorem full_intercalate (h_gs : ∀ g ∈ gs, IsGroup g) (h_tail : IsTail tail)
    (h_width : gs.length + 2 * tail.length = 8) :
    Full ([':'].intercalate (gs ++ tail)) gs tail ∧ zone ([':'].intercalate (gs ++ tail)) = [] := by
  have h_parts : ∀ part ∈ gs ++ tail, part ≠ [] ∧ ':' ∉ part ∧ '%' ∉ part := by
    intro part h_part
    obtain h_part | h_part := List.mem_append.mp h_part
    · have h_g := h_gs part h_part
      exact ⟨h_g.nonempty, h_g.not_mem.1, h_g.not_mem.2.2⟩
    · obtain rfl | ⟨v, rfl, h_v⟩ := h_tail
      · cases h_part
      · rw [List.mem_singleton.mp h_part]
        exact ⟨h_v.ne_nil, h_v.not_mem.1, h_v.not_mem.2⟩
  have h_ne : gs ++ tail ≠ [] := by
    intro h_nil
    obtain ⟨rfl, rfl⟩ := List.append_eq_nil_iff.mp h_nil
    cases h_width
  have h_percent : ∀ c ∈ [':'].intercalate (gs ++ tail), (c != '%') = true := by
    intro c h_c
    rw [bne_iff_ne]
    rintro rfl
    obtain h_c | ⟨part, h_part, h_c⟩ := mem_intercalate h_c
    · exact absurd h_c (by decide)
    · exact (h_parts part h_part).2.2 h_c
  have h_zone : zone ([':'].intercalate (gs ++ tail)) = [] :=
    List.dropWhile_eq_nil_iff.mpr h_percent
  have h_address : address ([':'].intercalate (gs ++ tail)) = [':'].intercalate (gs ++ tail) :=
    List.takeWhile_eq_self_iff.mpr h_percent
  refine ⟨⟨?_, ?_, h_gs, h_tail, h_width⟩, h_zone⟩
  · rw [h_address]
    exact splitDouble_groups h_ne (fun part h_part => (h_parts part h_part).1)
      fun part h_part => (h_parts part h_part).2.1
  · rw [h_address]
    exact splitChars_intercalate h_ne fun part h_part => (h_parts part h_part).2.1

end Six

end IpText
