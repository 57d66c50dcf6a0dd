/-
  Kubek.RateLimit.IpKey

  `ipKey` of `modules/rate-limit/ip-key.ts`: the key under which a limiter counts an address.

  Addresses are texts that `net.isIP` accepts. Two of them belong together when they are one
  IPv4 address, an IPv4-mapped IPv6 address counting as the IPv4 address in it, or IPv6
  addresses of one /64. The key says so for the addresses that are `Keyable`
  (`keyed_iff_keyable`):

    * a mapped address is taken for an IPv6 address, all of them for the same;
    * a dotted tail is counted as one group, so `::` stands for one group too many, and what
      is between it and the tail is read one place too far to the right.
-/

import Kubek.Lib.IpText
import Kubek.Lib.TextSearch

namespace Kubek.RateLimit

open IpText

/-! ## The function -/

def DOUBLE_COLON : Text := [':', ':']

/-- `g.replace(/^0+(?=.)/, "")`. -/
def withoutZeros (g : Text) : Text := Numerals.stripZeros (· == '0') g

/-- The first four groups of an IPv6 text, in lower case. -/
def keyGroups (ip : Text) : List Text :=
  let halves := splitDouble ((address ip).map lower)
  let left := colonParts (halves.headD [])
  let right := colonParts (halves.getD 1 [])
  let missing :=
    if TextSearch.includes DOUBLE_COLON ip then 8 - left.length - right.length else 0
  (left ++ List.replicate missing ['0'] ++ right).take 4

def ipKey (ip : Option Text) : Text :=
  match ip with
  | none => "?".toList
  | some ip =>
      if ip = [] then "?".toList
      else if !ip.contains ':' then ip
      else [':'].intercalate ((keyGroups ip).map withoutZeros) ++ "::/64".toList

/-! ## Clients -/

/-- Who counts together: one IPv4 address, or the first four words of an IPv6 address. -/
inductive Client
  | v4 (octets : List Nat)
  | v6 (network : List Nat)
  deriving DecidableEq, Repr

/-- The IPv4 address in a mapped IPv6 address, `::ffff:0:0/96`. -/
def mappedOctets : List Nat → Option (List Nat)
  | [0, 0, 0, 0, 0, 0xffff, x, y] => some [x / 256, x % 256, y / 256, y % 256]
  | _ => none

def client (ip : Text) : Client :=
  if isIPv4 ip then .v4 (octets ip)
  else
    match mappedOctets (words ip) with
    | some os => .v4 os
    | none => .v6 ((words ip).take 4)

/-- A dotted tail behind `::`, and a group between them, but for the last two, that is not
    zero. -/
def isShifted (ip : Text) : Bool :=
  match splitDouble (address ip) with
  | [_, r] =>
      let groups := (colonParts r).dropLast
      (colonParts r).getLast?.any isIPv4 &&
        (groups.take (groups.length - 2)).any fun g => hexadecimal g != 0
  | _ => false

/-- Neither a mapped address nor one whose groups are shifted. -/
def isKeyable (ip : Text) : Bool :=
  isIPv4 ip || ((mappedOctets (words ip)).isNone && !isShifted ip)

/-- The address is told from, and put together with, the addresses that are keyable as it
    belongs. -/
def Keyed (a : Text) : Prop :=
  ∀ b, isIP b = true → isKeyable b = true → (ipKey (some a) = ipKey (some b) ↔ client a = client b)

/-! ## Keys of groups -/

section Groups

variable {g : Text} {c : Char} {gs hs : List Text}

/-- A group in lower case. -/
structure IsKeyGroup (g : Text) : Prop where
  group : IsGroup g
  low : ∀ c ∈ g, lower c = c

theorem isKeyGroup_mapLower (h : IsGroup g) : IsKeyGroup (g.map lower) := by
  refine ⟨h.mapLower, fun c h_c => ?_⟩
  obtain ⟨d, h_d, rfl⟩ := List.mem_map.mp h_c
  exact (hexDigit_lower (h.hex d h_d)).2

theorem isZero_iff (h : isHexDigit c = true) : (c == '0') = true ↔ hexDigit c = 0 := by
  rw [beq_iff_eq]
  constructor
  · rintro rfl
    decide
  · intro h_zero
    have h_low : lower c = lower '0' := hexDigit_inj h (h_zero.trans (by decide))
    exact (lower_eq_iff (by decide) (by decide)).mp (h_low.trans (by decide))

theorem hexadecimal_withoutZeros (h : IsGroup g) : hexadecimal (withoutZeros g) = hexadecimal g := by
  apply Numerals.value_stripZeros
  intro c h_c
  rw [beq_iff_eq.mp h_c]
  decide

/-- Groups without leading zeros are the same texts when they are the same numbers. -/
theorem withoutZeros_eq_iff {h : Text} (h_g : IsKeyGroup g) (h_h : IsKeyGroup h) :
    withoutZeros g = withoutZeros h ↔ hexadecimal g = hexadecimal h := by
  rw [← hexadecimal_withoutZeros h_g.group, ← hexadecimal_withoutZeros h_h.group]
  constructor
  · exact congrArg hexadecimal
  · have h_sub : ∀ {k : Text}, IsKeyGroup k → ∀ c ∈ withoutZeros k,
        isHexDigit c = true ∧ lower c = c := by
      intro k h_k c h_c
      have h_mem := Numerals.stripZeros_subset _ _ h_c
      exact ⟨h_k.group.hex c h_mem, h_k.low c h_mem⟩
    have h_canon : ∀ {k : Text}, IsKeyGroup k → Numerals.Canonical hexDigit (withoutZeros k) := by
      intro k h_k
      apply Numerals.canonical_stripZeros h_k.group.nonempty
      exact fun c h_c h_zero => (isZero_iff (h_k.group.hex c h_c)).mpr h_zero
    refine Numerals.eq_of_value (by decide) (fun c h_c => hexDigit_lt (h_sub h_g c h_c).1)
      (fun c h_c => hexDigit_lt (h_sub h_h c h_c).1) (fun c h_c d h_d h_eq => ?_) (h_canon h_g)
      (h_canon h_h)
    have h_low := hexDigit_inj (h_sub h_g c h_c).1 h_eq
    rwa [(h_sub h_g c h_c).2, (h_sub h_h d h_d).2] at h_low

/-- The key of groups is determined by their numbers. -/
theorem key_eq_iff (h_gs : ∀ g ∈ gs, IsKeyGroup g) (h_hs : ∀ g ∈ hs, IsKeyGroup g)
    (h_ne : gs ≠ []) (h_len : gs.length = hs.length) (suffix : Text) :
    [':'].intercalate (gs.map withoutZeros) ++ suffix =
        [':'].intercalate (hs.map withoutZeros) ++ suffix ↔
      gs.map hexadecimal = hs.map hexadecimal := by
  have h_hs_ne : hs ≠ [] := fun h_nil => h_ne (List.eq_nil_of_length_eq_zero (by rw [h_len, h_nil]; rfl))
  have h_colon : ∀ {ks : List Text}, (∀ k ∈ ks, IsKeyGroup k) →
      ∀ part ∈ ks.map withoutZeros, ':' ∉ part := by
    intro ks h_ks part h_part h_mem
    obtain ⟨k, h_k, rfl⟩ := List.mem_map.mp h_part
    exact (h_ks k h_k).group.not_mem.1 (Numerals.stripZeros_subset _ _ h_mem)
  have h_point : gs.map withoutZeros = hs.map withoutZeros ↔
      gs.map hexadecimal = hs.map hexadecimal := by
    clear h_ne h_hs_ne
    induction gs generalizing hs with
    | nil =>
      obtain rfl := List.eq_nil_of_length_eq_zero h_len.symm
      exact ⟨fun _ => rfl, fun _ => rfl⟩
    | cons g gs ih =>
      cases hs with
      | nil => cases h_len
      | cons h hs =>
        rw [List.map_cons, List.map_cons, List.map_cons, List.map_cons, List.cons.injEq,
          List.cons.injEq, withoutZeros_eq_iff (h_gs g List.mem_cons_self) (h_hs h List.mem_cons_self),
          ih (fun k h_k => h_gs k (List.mem_cons_of_mem g h_k))
            (fun k h_k => h_hs k (List.mem_cons_of_mem h h_k)) (Nat.succ.inj h_len)]
  rw [List.append_cancel_right_eq, ← h_point]
  constructor
  · intro h_eq
    have h_split := congrArg (JsText.splitChars ':') h_eq
    rwa [splitChars_intercalate (fun h_nil => h_ne (List.map_eq_nil_iff.mp h_nil)) (h_colon h_gs),
      splitChars_intercalate (fun h_nil => h_hs_ne (List.map_eq_nil_iff.mp h_nil))
        (h_colon h_hs)] at h_split
  · intro h_eq
    rw [h_eq]

end Groups

/-! ## The first groups of an address -/

section First

variable {ip l r : Text} {left gs tail : List Text}

theorem splitChars_lower (t : Text) :
    JsText.splitChars ':' (t.map lower) = (JsText.splitChars ':' t).map (List.map lower) :=
  splitChars_map (fun _ => lower_eq_iff (by decide) (by decide)) t

theorem colonParts_lower (t : Text) :
    colonParts (t.map lower) = (colonParts t).map (List.map lower) := by
  by_cases h : t = []
  · rw [h]
    rfl
  · rw [colonParts, if_neg (mt List.map_eq_nil_iff.mp h), colonParts, if_neg h, splitChars_lower]

theorem splitDouble_lower (t : Text) :
    splitDouble (t.map lower) = (splitDouble t).map (List.map lower) :=
  splitDouble_map (fun _ => lower_eq_iff (by decide) (by decide)) t

theorem isTail_length (h : IsTail tail) : tail.length ≤ 1 := by
  obtain rfl | ⟨v, rfl, -⟩ := h
  · exact Nat.zero_le 1
  · exact Nat.le_refl 1

/-- Written out, the first four groups are in front of a dotted tail. -/
theorem keyGroups_full (h : Full ip gs tail) :
    keyGroups ip = (gs.take 4).map (List.map lower) := by
  have h_tail := isTail_length h.ending
  have h_width := h.width
  have h_ne : address ip ≠ [] := by
    intro h_nil
    have h_parts := h.parts
    have h_split : JsText.splitChars ':' ([] : Text) = [[]] := rfl
    rw [h_nil, h_split] at h_parts
    have h_len := congrArg List.length h_parts
    rw [List.length_singleton, List.length_append] at h_len
    omega
  have h_left : colonParts (address ip) = gs ++ tail := by
    rw [colonParts, if_neg h_ne, h.parts]
  rw [keyGroups, splitDouble_lower, h.whole]
  show ((colonParts ((address ip).map lower) ++ _ ++ colonParts []).take 4) = _
  rw [colonParts_lower, h_left, List.map_append, List.append_assoc, List.append_assoc,
    List.take_append_of_le_length (by rw [List.length_map]; omega), ← List.map_take]

/-- Cut, the dotted tail is taken for one group. -/
theorem keyGroups_cut (h : Cut ip l r left gs tail) :
    keyGroups ip = ((left ++ List.replicate (8 - left.length - (gs.length + tail.length)) ['0'] ++
      gs).take 4).map (List.map lower) := by
  have h_tail := isTail_length h.ending
  have h_width := h.width
  have h_in : TextSearch.includes DOUBLE_COLON ip = true := by
    have h_join := intercalate_splitDouble (address ip)
    rw [h.halves, List.intercalate_cons_cons, List.intercalate_singleton] at h_join
    have h_ip : ip = l ++ DOUBLE_COLON ++ (r ++ zone ip) := by
      rw [← List.append_assoc]
      show ip = l ++ [':', ':'] ++ r ++ zone ip
      rw [h_join]
      exact (List.takeWhile_append_dropWhile).symm
    obtain ⟨i, h_i, -⟩ := TextSearch.indexOf_le DOUBLE_COLON l (r ++ zone ip)
    rw [TextSearch.includes, h_ip, h_i]
    rfl
  have h_zero : ['0'].map lower = ['0'] := by decide
  rw [keyGroups, splitDouble_lower, h.halves]
  show ((colonParts (l.map lower) ++ List.replicate (if TextSearch.includes DOUBLE_COLON ip then
    8 - (colonParts (l.map lower)).length - (colonParts (r.map lower)).length else 0) ['0'] ++
      colonParts (r.map lower)).take 4) = _
  rw [if_pos h_in, colonParts_lower, colonParts_lower, h.front, h.back, List.length_map,
    List.length_map, List.length_append, List.map_append, ← List.append_assoc,
    List.take_append_of_le_length, List.map_take, List.map_append, List.map_append,
    List.map_replicate, h_zero]
  simp only [List.length_append, List.length_map, List.length_replicate]
  omega

/-- One place further to the right the front part is the same when it is all the same. -/
theorem take_cons_eq_iff {α : Type} {c : α} {xs : List α} {n : Nat} (h : n ≤ xs.length) :
    (c :: xs).take n = xs.take n ↔ ∀ x ∈ xs.take n, x = c := by
  induction n generalizing c xs with
  | zero => simp
  | succ n ih =>
    cases xs with
    | nil => cases h
    | cons x xs =>
      rw [List.take_succ_cons, List.take_succ_cons, List.cons.injEq,
        ih (Nat.le_of_succ_le_succ h)]
      constructor
      · rintro ⟨h_c, h_all⟩ y h_y
        obtain rfl | h_y := List.mem_cons.mp h_y
        · exact h_c.symm
        · exact (h_all y h_y).trans h_c.symm
      · intro h_all
        have h_x := h_all x List.mem_cons_self
        exact ⟨h_x.symm, fun y h_y => (h_all y (List.mem_cons_of_mem x h_y)).trans h_x.symm⟩

/-- A zero too many in front of the groups shows unless these are zero themselves. -/
theorem take_shifted_iff {zs gs : List Nat} (h : zs.length + gs.length = 6) :
    (zs ++ 0 :: gs).take 4 = (zs ++ gs).take 4 ↔ ∀ x ∈ gs.take (gs.length - 2), x = 0 := by
  have h_count : 4 - zs.length = gs.length - 2 := by omega
  rw [List.take_append, List.take_append, List.append_cancel_left_eq, h_count,
    take_cons_eq_iff (Nat.sub_le _ _)]

theorem isShifted_cut (h : Cut ip l r left gs tail) :
    isShifted ip = (tail.any isIPv4 &&
      (gs.take (gs.length - 2)).any fun g => hexadecimal g != 0) := by
  rw [isShifted, h.halves]
  simp only [h.back]
  obtain rfl | ⟨v, rfl, h_v⟩ := h.ending
  · rw [List.append_nil, List.any_nil, Bool.false_and]
    have h_last : gs.getLast?.any isIPv4 = false := by
      cases h_gs : gs.getLast? with
      | none => rfl
      | some g => exact (h.groups g (List.mem_of_getLast? h_gs)).not_isIPv4
    rw [h_last, Bool.false_and]
  · rw [List.getLast?_concat, List.dropLast_concat]
    simp only [Option.any_some, List.any_cons, List.any_nil, Bool.or_false]

/-- The first groups of an accepted address as numbers, as the key has them. -/
theorem keyGroups_spec (h : isIPv6 ip = true) :
    (∀ g ∈ keyGroups ip, IsKeyGroup g) ∧ (keyGroups ip).length = 4 ∧
      ((keyGroups ip).map hexadecimal = (words ip).take 4 ↔ isShifted ip = false) := by
  have h_zero : hexadecimal ['0'] = 0 := by decide
  have h_low : ∀ ks : List Text, (∀ k ∈ ks, IsGroup k) →
      (∀ g ∈ (ks.take 4).map (List.map lower), IsKeyGroup g) ∧
        ((ks.take 4).map (List.map lower)).map hexadecimal = (ks.map hexadecimal).take 4 := by
    intro ks h_ks
    have h_take : ∀ k ∈ ks.take 4, IsGroup k := fun k h_k => h_ks k (List.mem_of_mem_take h_k)
    constructor
    · intro g h_g
      obtain ⟨k, h_k, rfl⟩ := List.mem_map.mp h_g
      exact isKeyGroup_mapLower (h_take k h_k)
    · rw [List.map_map, ← List.map_take]
      exact List.map_congr_left fun k h_k => hexadecimal_mapLower (h_take k h_k)
  obtain ⟨gs, tail, h⟩ | ⟨l, r, left, gs, tail, h⟩ := isIPv6_cases h
  · have h_tail := isTail_length h.ending
    have h_width := h.width
    obtain ⟨h_groups, h_hex⟩ := h_low gs h.groups
    have h_shift : isShifted ip = false := by
      rw [isShifted, h.whole]
    rw [keyGroups_full h, h_shift, h_hex, h.words]
    refine ⟨h_groups, ?_, fun _ => rfl, fun _ => ?_⟩
    · rw [List.length_map, List.length_take]
      omega
    · rw [List.take_append_of_le_length (by rw [List.length_map]; omega)]
  · have h_tail := isTail_length h.ending
    have h_width := h.width
    have h_all : ∀ k ∈ left ++ List.replicate (8 - left.length - (gs.length + tail.length)) ['0'] ++
        gs, IsGroup k := by
      intro k h_k
      obtain h_k | h_k := List.mem_append.mp h_k
      · obtain h_k | h_k := List.mem_append.mp h_k
        · exact h.leftGroups k h_k
        · rw [(List.mem_replicate.mp h_k).2]
          exact isGroup_iff.mp (by decide)
      · exact h.groups k h_k
    obtain ⟨h_groups, h_hex⟩ := h_low _ h_all
    rw [keyGroups_cut h, h_hex, h.words]
    refine ⟨h_groups, ?_, ?_⟩
    · rw [List.length_map, List.length_take, List.length_append, List.length_append,
        List.length_replicate]
      omega
    · rw [isShifted_cut h]
      obtain h_end | ⟨v, h_end, h_v⟩ := h.ending
      · rw [h_end, List.map_append, List.map_append, List.map_replicate, List.length_nil,
          Nat.mul_zero, List.flatMap_nil, List.append_nil, h_zero]
        exact ⟨fun _ => rfl, fun _ => rfl⟩
      · rw [h_end] at h_width ⊢
        have h_one : ([v] : List Text).length = 1 := rfl
        rw [h_one] at h_width ⊢
        have h_more : 8 - left.length - (gs.length + 1) =
            8 - left.length - (gs.length + 2 * 1) + 1 := by omega
        have h_any : ([v] : List Text).any isIPv4 = true := by
          rw [List.any_cons, isIPv4_iff.mpr h_v, Bool.true_or]
        have h_six : (left.map hexadecimal ++
            List.replicate (8 - left.length - (gs.length + 2 * 1)) 0).length +
              (gs.map hexadecimal).length = 6 := by
          simp only [List.length_append, List.length_map, List.length_replicate]
          omega
        have h_front : ∀ ns ms : List Nat, ns.length = 6 → (ns ++ ms).take 4 = ns.take 4 := by
          intro ns ms h_ns
          rw [List.take_append_of_le_length (by omega)]
        rw [h_any, Bool.true_and, h_more, List.replicate_succ', List.map_append, List.map_append,
          List.map_append, List.map_replicate, List.map_singleton, h_zero, ← List.append_assoc,
          List.append_assoc _ [0], List.singleton_append, ← List.append_assoc,
          h_front _ ([v].flatMap wordsOf) (by rw [List.length_append, h_six]), take_shifted_iff h_six, List.length_map,
          ← List.map_take, List.any_eq_false]
        simp only [List.mem_map, forall_exists_index, and_imp, forall_apply_eq_imp_iff₂, bne_iff_ne,
          ne_eq, not_not]

end First

/-! ## Keys and clients -/

section Keys

variable {a b : Text}

theorem ipKey_isIPv4 (h : isIPv4 a = true) : ipKey (some a) = a := by
  have h_v4 := isIPv4_iff.mp h
  have h_colon : (!a.contains ':') = true := by
    rw [Bool.not_eq_true', ← Bool.not_eq_true, List.contains_iff_mem]
    exact h_v4.not_mem.1
  rw [ipKey, if_neg h_v4.ne_nil, if_pos h_colon]

theorem ipKey_isIPv6 (h : isIPv6 a = true) :
    ipKey (some a) = [':'].intercalate ((keyGroups a).map withoutZeros) ++ "::/64".toList := by
  have h_mem := colon_mem h
  have h_colon : ¬ (!a.contains ':') = true := by
    rw [List.contains_iff_mem.mpr h_mem]
    decide
  rw [ipKey, if_neg (List.ne_nil_of_mem h_mem), if_neg h_colon]

/-- The keys of the two families have nothing in common. -/
theorem ipKey_ne (h : isIPv4 a = true) (h' : isIPv6 b = true) : ipKey (some a) ≠ ipKey (some b) := by
  intro h_eq
  have h_mem : ':' ∈ ipKey (some b) := by
    rw [ipKey_isIPv6 h']
    exact List.mem_append_right _ (by decide)
  rw [← h_eq, ipKey_isIPv4 h] at h_mem
  exact (isIPv4_iff.mp h).not_mem.1 h_mem

theorem ipKey_eq_iff (h : isIPv6 a = true) (h' : isIPv6 b = true) :
    ipKey (some a) = ipKey (some b) ↔
      (keyGroups a).map hexadecimal = (keyGroups b).map hexadecimal := by
  obtain ⟨h_a, h_len, -⟩ := keyGroups_spec h
  obtain ⟨h_b, h_len', -⟩ := keyGroups_spec h'
  have h_ne : keyGroups a ≠ [] := by
    intro h_nil
    rw [h_nil] at h_len
    cases h_len
  rw [ipKey_isIPv6 h, ipKey_isIPv6 h']
  exact key_eq_iff h_a h_b h_ne (h_len.trans h_len'.symm) _

theorem isKeyable_isIPv6 (h : isIPv6 a = true) :
    isKeyable a = true ↔ mappedOctets (words a) = none ∧ isShifted a = false := by
  rw [isKeyable, not_isIPv4_of_isIPv6 h, Bool.false_or, Bool.and_eq_true, Option.isNone_iff_eq_none,
    Bool.not_eq_true']

theorem client_isIPv6 (h : isIPv6 a = true) (h_mapped : mappedOctets (words a) = none) :
    client a = .v6 ((words a).take 4) := by
  rw [client, not_isIPv4_of_isIPv6 h, if_neg Bool.false_ne_true, h_mapped]

theorem keyed_of_keyable (h : isIP a = true) (h_keyable : isKeyable a = true) : Keyed a := by
  intro b h_b h_keyable'
  rw [isIP, Bool.or_eq_true] at h h_b
  obtain h | h := h
  · obtain h_b | h_b := h_b
    · rw [ipKey_isIPv4 h, ipKey_isIPv4 h_b, client, client, if_pos h, if_pos h_b, Client.v4.injEq]
      constructor
      · exact congrArg octets
      · exact octets_injective (isIPv4_iff.mp h) (isIPv4_iff.mp h_b)
    · rw [client_isIPv6 h_b ((isKeyable_isIPv6 h_b).mp h_keyable').1, client, if_pos h]
      exact ⟨fun h_eq => absurd h_eq (ipKey_ne h h_b), fun h_eq => by cases h_eq⟩
  · obtain h_b | h_b := h_b
    · rw [client_isIPv6 h ((isKeyable_isIPv6 h).mp h_keyable).1, client, if_pos h_b]
      exact ⟨fun h_eq => absurd h_eq.symm (ipKey_ne h_b h), fun h_eq => by cases h_eq⟩
    · obtain ⟨h_plain, h_straight⟩ := (isKeyable_isIPv6 h).mp h_keyable
      obtain ⟨h_plain', h_straight'⟩ := (isKeyable_isIPv6 h_b).mp h_keyable'
      rw [ipKey_eq_iff h h_b, (keyGroups_spec h).2.2.mpr h_straight,
        (keyGroups_spec h_b).2.2.mpr h_straight', client_isIPv6 h h_plain,
        client_isIPv6 h_b h_plain', Client.v6.injEq]

/-! ## Addresses that are not keyable -/

/-- A mapped address is told from the IPv4 address that it is. -/
theorem not_keyed_of_mapped (h : isIPv6 a = true) {os : List Nat}
    (h_mapped : mappedOctets (words a) = some os) : ¬ Keyed a := by
  have h_os : os.length = 4 ∧ ∀ n ∈ os, n < 256 := by
    have h_lt := words_lt h
    rw [mappedOctets.eq_def] at h_mapped
    split at h_mapped
    · rename_i x y h_words
      rw [h_words] at h_lt
      have h_x := h_lt x (by simp)
      have h_y := h_lt y (by simp)
      cases h_mapped
      refine ⟨rfl, fun n h_n => ?_⟩
      simp only [List.mem_cons, List.not_mem_nil, or_false] at h_n
      omega
    · cases h_mapped
  obtain ⟨h_v4, h_octets⟩ := isIPv4_dotted h_os.1 h_os.2
  have h_b := isIPv4_iff.mpr h_v4
  intro h_keyed
  have h_iff := h_keyed (dotted os) (by rw [isIP, h_b, Bool.true_or]) (by rw [isKeyable, h_b, Bool.true_or])
  have h_client : client a = client (dotted os) := by
    rw [client, not_isIPv4_of_isIPv6 h, if_neg Bool.false_ne_true, h_mapped, client, if_pos h_b,
      h_octets]
  exact ipKey_ne h_b h (h_iff.mpr h_client).symm

/-- An address whose groups are shifted is told from the same address written out. -/
theorem not_keyed_of_shifted (h : isIPv6 a = true) (h_plain : mappedOctets (words a) = none)
    (h_shifted : isShifted a = true) : ¬ Keyed a := by
  obtain ⟨gs, tail, h_full⟩ | ⟨l, r, left, gs, tail, h_cut⟩ := isIPv6_cases h
  · rw [isShifted, h_full.whole] at h_shifted
    cases h_shifted
  · have h_width := h_cut.width
    have h_groups : ∀ g ∈ left ++
        List.replicate (8 - left.length - (gs.length + 2 * tail.length)) ['0'] ++ gs, IsGroup g := by
      intro g h_g
      obtain h_g | h_g := List.mem_append.mp h_g
      · obtain h_g | h_g := List.mem_append.mp h_g
        · exact h_cut.leftGroups g h_g
        · rw [(List.mem_replicate.mp h_g).2]
          exact isGroup_iff.mp (by decide)
      · exact h_cut.groups g h_g
    obtain ⟨h_full, h_zone⟩ := full_intercalate h_groups h_cut.ending (by
      simp only [List.length_append, List.length_replicate]
      omega)
    have h_b := h_full.isIPv6 h_zone
    have h_zero : hexadecimal ['0'] = 0 := by decide
    have h_words := h_full.words
    rw [List.map_append, List.map_append, List.map_replicate, h_zero, List.append_assoc _ _
      (tail.flatMap wordsOf), ← h_cut.words] at h_words
    generalize [':'].intercalate (left ++ List.replicate (8 - left.length -
      (gs.length + 2 * tail.length)) ['0'] ++ gs ++ tail) = b at h_full h_b h_words
    have h_straight : isShifted b = false := by rw [isShifted, h_full.whole]
    have h_plain' : mappedOctets (words b) = none := by rw [h_words, h_plain]
    intro h_keyed
    have h_iff := h_keyed b (by rw [isIP, h_b, Bool.or_true])
      ((isKeyable_isIPv6 h_b).mpr ⟨h_plain', h_straight⟩)
    rw [client_isIPv6 h h_plain, client_isIPv6 h_b h_plain', h_words, ipKey_eq_iff h h_b,
      (keyGroups_spec h_b).2.2.mpr h_straight, h_words] at h_iff
    have h_same := (keyGroups_spec h).2.2.mp (h_iff.mpr rfl)
    rw [h_same] at h_shifted
    cases h_shifted

/-- An address is keyed as it belongs exactly when it is keyable. -/
theorem keyed_iff_keyable (h : isIP a = true) : Keyed a ↔ isKeyable a = true := by
  constructor
  · intro h_keyed
    by_contra h_not
    rw [isIP, Bool.or_eq_true] at h
    obtain h | h := h
    · exact h_not (by rw [isKeyable, h, Bool.true_or])
    · cases h_mapped : mappedOctets (words a) with
      | some os => exact not_keyed_of_mapped h h_mapped h_keyed
      | none =>
        cases h_shifted : isShifted a with
        | true => exact not_keyed_of_shifted h h_mapped h_shifted h_keyed
        | false => exact h_not ((isKeyable_isIPv6 h).mpr ⟨h_mapped, h_shifted⟩)
  · exact keyed_of_keyable h

end Keys

theorem keyed_compressed : Keyed "2001:db8:aa:1::1".toList :=
  (keyed_iff_keyable (by decide +kernel)).mpr (by decide +kernel)

/-- One IPv4 address under two keys, and two of them under one; and one IPv6 address under
    two keys. -/
theorem mapped_and_shifted :
    (∃ a b, isIP a = true ∧ isIP b = true ∧ client a = client b ∧
      ipKey (some a) ≠ ipKey (some b) ∧ isIPv4 b = true) ∧
    (∃ a b, isIP a = true ∧ isIP b = true ∧ client a ≠ client b ∧
      ipKey (some a) = ipKey (some b)) ∧
    ∃ a b, isIPv6 a = true ∧ isIPv6 b = true ∧ words a = words b ∧
      ipKey (some a) ≠ ipKey (some b) := by
  refine ⟨⟨"::ffff:1.2.3.4".toList, "1.2.3.4".toList, ?_⟩,
    ⟨"::ffff:1.2.3.4".toList, "::ffff:5.6.7.8".toList, ?_⟩,
    ⟨"::1:2:3:4:1.2.3.4".toList, "0:0:1:2:3:4:1.2.3.4".toList, ?_⟩⟩
  · decide +kernel
  · decide +kernel
  · decide +kernel

end Kubek.RateLimit
